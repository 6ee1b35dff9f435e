import Stencil.Proofs.Text.Places
import Stencil.Scope

/-!
# Where keys lead

A value holds others under segments: a mapping under its keys, a sequence under positions, and a
sequence or text its length (`Value.Holds`). Segments lead from a value to what is held by what is
held by it and so on (`Leads`); nothing is evaluated on the way, and a computed entry can be where
they lead.

`walk_cases` says what `walk` gives, by where its segments lead. All that is said of keys here
follows from that and from `walk_append`: segments can be walked in two parts.
-/

set_option autoImplicit false

namespace Stencil

variable {κ : Type}

/-! ## What a value holds -/

theorem Value.isComputed_eq_true_iff {value : Value κ} :
    value.isComputed = true ↔ ∃ computation, value = .computed computation := by
  cases value <;> simp [Value.isComputed]

/-- What a value holds under a segment. -/
inductive Value.Holds : Value κ → Text → Value κ → Prop where
  | entry {entries : List (Text × Value κ)} {segment : Text} {value : Value κ} :
      lookup? segment entries = some value → Holds (.mapping entries) segment value
  /-- The segment spells the position of the item. -/
  | item {items : List (Value κ)} {segment : Text} {index : Nat} {value : Value κ} :
      segment ≠ lengthSegment → position? segment = some index → items[index]? = some value →
      Holds (.sequence items) segment value
  | itemCount {items : List (Value κ)} :
      Holds (.sequence items) lengthSegment (.ofNat items.length)
  | characterCount {content : Text} :
      Holds (.text content) lengthSegment (.ofNat content.length)

/-- The segments lead from a value to another, each from what the ones before it lead to. -/
inductive Leads : Value κ → List Text → Value κ → Prop where
  | here {value : Value κ} : Leads value [] value
  | step {holder inner value : Value κ} {segment : Text} {rest : List Text} :
      holder.Holds segment inner → Leads inner rest value →
      Leads holder (segment :: rest) value

section Holds

variable {holder inner value : Value κ} {segment : Text}

/-- What is held is where the segment lands, or a length. -/
theorem Value.Holds.land (h : holder.Holds segment value) :
    Stencil.land holder segment = .inside value ∨
      ∃ n, Stencil.land holder segment = .length n ∧ value = .ofNat n := by
  cases h with
  | entry hlookup => exact .inl (by simp only [Stencil.land, hlookup])
  | item hne hposition hitem =>
      exact .inl (by simp only [Stencil.land, if_neg hne, hposition, hitem])
  | itemCount => exact .inr ⟨_, by simp only [Stencil.land, if_true], rfl⟩
  | characterCount => exact .inr ⟨_, by simp only [Stencil.land, if_true], rfl⟩

/-- A segment lands nowhere if nothing is held under it. -/
theorem land_of_not_holds (h : ∀ value, ¬ holder.Holds segment value) :
    land holder segment = .nowhere := by
  cases holder with
  | null | bool _ | number _ | computed _ => rfl
  | mapping entries =>
      cases hlookup : lookup? segment entries with
      | none => simp only [land, hlookup]
      | some value => exact absurd (.entry hlookup) (h value)
  | text content =>
      by_cases hlength : segment = lengthSegment
      · subst hlength
        exact absurd .characterCount (h _)
      · simp only [land, if_neg hlength]
  | sequence items =>
      by_cases hlength : segment = lengthSegment
      · subst hlength
        exact absurd .itemCount (h _)
      · cases hposition : position? segment with
        | none => simp only [land, if_neg hlength, hposition]
        | some index =>
            cases hitem : items[index]? with
            | none => simp only [land, if_neg hlength, hposition, hitem]
            | some value => exact absurd (.item hlength hposition hitem) (h value)

end Holds

/-! ## Walking -/

section Walking

variable {evaluate : Evaluate κ} {holder inner value : Value κ} {segment : Text}
  {path more : List Text}

theorem walk_cons_of_not_holds (h : ∀ value, ¬ holder.Holds segment value) (more : List Text) :
    walk evaluate holder (segment :: more) = .done none := by
  rw [walk, land_of_not_holds h]

/-- A computed entry holds nothing, and leads nowhere. -/
theorem walk_computed (computation : κ) (segments : List Text) :
    walk evaluate (.computed computation) segments = .done none := by
  cases segments <;> rfl

/-- No segment leads from a number. -/
theorem walk_ofNat (n : Nat) (segments : List Text) :
    walk evaluate (.ofNat n) segments = .done none := by
  cases segments <;> rfl

theorem walk_cons_of_holds (h : holder.Holds segment inner) (hmore : more ≠ []) :
    walk evaluate holder (segment :: more) = walk evaluate inner more := by
  rcases h.land with hland | ⟨n, hland, rfl⟩
  · cases inner with
    | computed c => simp only [walk, hland, List.isEmpty_iff, hmore, if_false, walk_computed]
    | null | bool _ | number _ | text _ | sequence _ | mapping _ =>
        simp only [walk, hland, List.isEmpty_iff, hmore, if_false]
  · simp only [walk, hland, List.isEmpty_iff, hmore, if_false, walk_ofNat]

theorem walk_singleton_of_holds (h : holder.Holds segment value)
    (hvalue : value.isComputed = false) :
    walk evaluate holder [segment] = .done (some value) := by
  rcases h.land with hland | ⟨n, hland, rfl⟩
  · cases value with
    | computed c => cases hvalue
    | null | bool _ | number _ | text _ | sequence _ | mapping _ =>
        simp only [walk, hland, List.isEmpty_nil, if_true]
  · simp only [walk, hland, List.isEmpty_nil, if_true]

theorem walk_singleton_of_computed {computation : κ}
    (h : holder.Holds segment (.computed computation)) :
    walk evaluate holder [segment] = (evaluate computation holder).map some := by
  rcases h.land with hland | ⟨n, -, hn⟩
  · simp only [walk, hland, List.isEmpty_nil, if_true]
  · cases hn

/-- **Segments are walked in two parts**: from where the first of them lead, the others go on. -/
theorem walk_append (h : Leads holder path inner) (hmore : more ≠ []) :
    walk evaluate holder (path ++ more) = walk evaluate inner more := by
  induction h with
  | here => rfl
  | step hholds _ ih =>
      rw [List.cons_append, walk_cons_of_holds hholds (by simp [hmore]), ih]

/-- Nothing is behind segments that lead nowhere. -/
theorem walk_append_of_not_leads (h : ∀ value, ¬ Leads holder path value) (more : List Text) :
    walk evaluate holder (path ++ more) = .done none := by
  induction path generalizing holder with
  | nil => exact absurd .here (h holder)
  | cons segment rest ih =>
      rw [List.cons_append]
      by_cases hholds : ∃ inner, holder.Holds segment inner
      · obtain ⟨inner, hinner⟩ := hholds
        have hrest : ∀ value, ¬ Leads inner rest value := fun value hleads =>
          h value (.step hinner hleads)
        have hne : rest ++ more ≠ [] := by
          rintro hnil
          obtain ⟨rfl, -⟩ := List.append_eq_nil_iff.mp hnil
          exact hrest inner .here
        rw [walk_cons_of_holds hinner hne, ih hrest]
      · exact walk_cons_of_not_holds (fun inner hinner => hholds ⟨inner, hinner⟩) _

theorem Leads.append (h : Leads holder path inner) (h' : Leads inner more value) :
    Leads holder (path ++ more) value := by
  induction h with
  | here => exact h'
  | step hholds _ ih => exact .step hholds (ih h')

theorem Leads.of_append (h : Leads holder (path ++ more) value) :
    ∃ inner, Leads holder path inner ∧ Leads inner more value := by
  induction path generalizing holder with
  | nil => exact ⟨holder, .here, h⟩
  | cons segment rest ih =>
      cases h with
      | step hholds hrest =>
          obtain ⟨inner, hinner, hmore⟩ := ih hrest
          exact ⟨inner, .step hholds hinner, hmore⟩

theorem leads_concat_iff :
    Leads holder (path ++ [segment]) value ↔
      ∃ inner, Leads holder path inner ∧ inner.Holds segment value := by
  constructor
  · intro h
    obtain ⟨inner, hpath, hlast⟩ := h.of_append
    cases hlast with
    | step hholds hnil =>
        cases hnil
        exact ⟨inner, hpath, hholds⟩
  · rintro ⟨inner, hpath, hholds⟩
    exact hpath.append (.step hholds .here)

theorem walk_of_leads (h : Leads holder path value) (hpath : path ≠ [])
    (hvalue : value.isComputed = false) : walk evaluate holder path = .done (some value) := by
  obtain ⟨front, segment, rfl⟩ := (List.eq_nil_or_concat' path).resolve_left hpath
  obtain ⟨inner, hfront, hholds⟩ := leads_concat_iff.mp h
  rw [walk_append hfront (by simp), walk_singleton_of_holds hholds hvalue]

theorem walk_of_computed {computation : κ} (h : Leads holder path inner)
    (hholds : inner.Holds segment (.computed computation)) :
    walk evaluate holder (path ++ [segment]) = (evaluate computation inner).map some := by
  rw [walk_append h (by simp), walk_singleton_of_computed hholds]

/-- **What walking gives**: nothing where the segments lead nowhere, what a computed entry gives for
its holder where they lead to one, and otherwise the value they lead to. -/
theorem walk_cases (evaluate : Evaluate κ) (holder : Value κ) {segments : List Text}
    (h : segments ≠ []) :
    ((∀ value, ¬ Leads holder segments value) ∧ walk evaluate holder segments = .done none) ∨
    (∃ path segment inner computation, segments = path ++ [segment] ∧ Leads holder path inner ∧
      inner.Holds segment (.computed computation) ∧
      walk evaluate holder segments = (evaluate computation inner).map some) ∨
    ∃ value, Leads holder segments value ∧ value.isComputed = false ∧
      walk evaluate holder segments = .done (some value) := by
  by_cases hleads : ∃ value, Leads holder segments value
  · obtain ⟨value, hvalue⟩ := hleads
    cases hcomputed : value.isComputed with
    | false => exact .inr (.inr ⟨value, hvalue, hcomputed, walk_of_leads hvalue h hcomputed⟩)
    | true =>
        obtain ⟨computation, rfl⟩ := Value.isComputed_eq_true_iff.mp hcomputed
        obtain ⟨path, segment, rfl⟩ := (List.eq_nil_or_concat' segments).resolve_left h
        obtain ⟨inner, hpath, hholds⟩ := leads_concat_iff.mp hvalue
        exact .inr (.inl ⟨path, segment, inner, computation, rfl, hpath, hholds,
          walk_of_computed hpath hholds⟩)
  · have hnone : ∀ value, ¬ Leads holder segments value := fun value hvalue =>
      hleads ⟨value, hvalue⟩
    have hwalk := @walk_append_of_not_leads _ evaluate _ _ hnone []
    rw [List.append_nil] at hwalk
    exact .inl ⟨hnone, hwalk⟩

end Walking

/-! ## Keys -/

section Keys

variable {evaluate : Evaluate κ} {context : Value κ} {key : Text}

/-- A value in the place of which the empty text is given if it is null. -/
theorem presented_some (value : Value κ) :
    presented (some value) = if value.isNull then .text [] else value := by
  cases value <;> rfl

theorem isNull_presented (found : Option (Value κ)) : (presented found).isNull = false := by
  cases found with
  | none => rfl
  | some value => cases value <;> rfl

theorem resolve_of_walk {found : Option (Value κ)}
    (h : walk evaluate context (splitText '.' key) = .done found) :
    resolve evaluate context key = .done (presented found) := by
  rw [resolve, h, Outcome.map]

theorem resolve_of_computed {path : List Text} {segment : Text} {holder : Value κ}
    {computation : κ} (hkey : splitText '.' key = path ++ [segment])
    (hpath : Leads context path holder) (hholds : holder.Holds segment (.computed computation)) :
    resolve evaluate context key = (evaluate computation holder).map fun value =>
      if value.isNull then .text [] else value := by
  rw [resolve, hkey, walk_of_computed hpath hholds]
  cases evaluate computation holder with
  | panicked => rfl
  | done value => simp only [Outcome.map, presented_some]

theorem resolve_ne_null : resolve evaluate context key ≠ .done .null := by
  rw [resolve]
  cases walk evaluate context (splitText '.' key) with
  | panicked => simp [Outcome.map]
  | done found =>
      intro h
      have hnull := isNull_presented found
      rw [Outcome.done.inj h] at hnull
      cases hnull

/-- A key panics where it leads to a computed entry that does, and nowhere else. -/
theorem resolve_eq_panicked_iff :
    resolve evaluate context key = .panicked ↔
      ∃ path segment holder computation, splitText '.' key = path ++ [segment] ∧
        Leads context path holder ∧ holder.Holds segment (.computed computation) ∧
        evaluate computation holder = .panicked := by
  constructor
  · intro h
    rcases walk_cases evaluate context (splitText_ne_nil '.' key) with ⟨-, hwalk⟩ |
      ⟨path, segment, holder, computation, hkey, hpath, hholds, -⟩ | ⟨value, -, -, hwalk⟩
    · rw [resolve_of_walk hwalk] at h
      cases h
    · refine ⟨path, segment, holder, computation, hkey, hpath, hholds, ?_⟩
      rw [resolve_of_computed hkey hpath hholds] at h
      cases hresult : evaluate computation holder with
      | panicked => rfl
      | done value => simp [hresult, Outcome.map] at h
    · rw [resolve_of_walk hwalk] at h
      cases h
  · rintro ⟨path, segment, holder, computation, hkey, hpath, hholds, hresult⟩
    rw [resolve_of_computed hkey hpath hholds, hresult, Outcome.map]

/-- **Keys compose along the paths they spell.** Behind a value that is stored where some segments
lead, or is a length there, more segments are walked as they are from that value. Behind segments
that lead nowhere or to a computed entry there is nothing, which keys give as the empty text. A
computed entry at the end is evaluated with the value that the segments before the last one lead to;
what it gives is not evaluated again, and stands unless it is null. No key gives null: the empty
text stands for null and for nothing. -/
theorem resolve_along_path (evaluate : Evaluate κ) (context : Value κ) :
    (∀ path value, path ≠ [] → Leads context path value → value.isComputed = false →
      walk evaluate context path = .done (some value) ∧
      ∀ more, more ≠ [] → walk evaluate context (path ++ more) = walk evaluate value more) ∧
    (∀ path more, path ≠ [] → more ≠ [] →
      ((∀ value, ¬ Leads context path value) ∨
        ∃ computation, Leads context path (.computed computation)) →
      walk evaluate context (path ++ more) = .done none ∧
      ∀ key, splitText '.' key = path ++ more →
        resolve evaluate context key = .done (.text [])) ∧
    (∀ path segment holder computation, Leads context path holder →
      holder.Holds segment (.computed computation) →
      ∀ key, splitText '.' key = path ++ [segment] →
        resolve evaluate context key = (evaluate computation holder).map fun value =>
          if value.isNull then .text [] else value) ∧
    ∀ key, resolve evaluate context key ≠ .done .null ∧
      ∀ found, walk evaluate context (splitText '.' key) = .done found →
        ((found = none ∨ found = some .null) → resolve evaluate context key = .done (.text [])) ∧
        ∀ value, found = some value → value.isNull = false →
          resolve evaluate context key = .done value := by
  refine ⟨?_, ?_, ?_, ?_⟩
  · intro path value hpath hleads hvalue
    exact ⟨walk_of_leads hleads hpath hvalue, fun more hmore => walk_append hleads hmore⟩
  · intro path more _ hmore hgone
    have hwalk : walk evaluate context (path ++ more) = .done none := by
      rcases hgone with hnone | ⟨computation, hcomputed⟩
      · exact walk_append_of_not_leads hnone more
      · rw [walk_append hcomputed hmore, walk_computed]
    refine ⟨hwalk, fun key hkey => ?_⟩
    rw [← hkey] at hwalk
    exact resolve_of_walk hwalk
  · intro path segment holder computation hpath hholds key hkey
    exact resolve_of_computed hkey hpath hholds
  · intro key
    refine ⟨resolve_ne_null, fun found hwalk => ?_⟩
    have hresolve := resolve_of_walk hwalk
    constructor
    · rintro (rfl | rfl) <;> exact hresolve
    · rintro value rfl hvalue
      rw [hresolve, presented_some, hvalue]
      rfl

end Keys

/-- The statement for a computed entry that greets the value holding it. It is found behind a
position of a sequence, and gives null where its holder has no name. -/
theorem resolve_along_path_greeting :
    let greet : Evaluate Text := fun greeting holder =>
      match holder with
      | .mapping ((_, .text name) :: _) => .done (.text (greeting ++ name))
      | _ => .done .null
    let person : Value Text :=
      .mapping [("name".toList, .text "Ada".toList), ("hi".toList, .computed "Hi ".toList)]
    let context : Value Text := .mapping [
      ("people".toList, .sequence [person, .null]), ("hi".toList, .computed "Hi ".toList)]
    let first := ["people".toList, "0".toList]
    Leads context first person ∧
      walk greet context (first ++ ["name".toList]) = walk greet person ["name".toList] ∧
      resolve greet context "people.0.hi".toList = .done (.text "Hi Ada".toList) ∧
      resolve greet context "hi".toList = .done (.text []) ∧
      resolve greet context "people.0.hi.length".toList = .done (.text []) ∧
      resolve greet context "people.1".toList = .done (.text []) := by
  intro greet person context first
  obtain ⟨hstored, hgone, hcomputed, hkey⟩ := resolve_along_path greet context
  have hfirst : Leads context first person :=
    .step (.entry rfl) (.step (@Value.Holds.item _ _ _ 0 _ (by decide) (by decide) rfl) .here)
  have hhi : person.Holds "hi".toList (.computed "Hi ".toList) := .entry rfl
  refine ⟨hfirst, ?_, ?_, ?_, ?_, ?_⟩
  · exact (hstored first person (by simp [first]) hfirst rfl).2 ["name".toList] (by simp)
  · exact hcomputed first "hi".toList person _ hfirst hhi "people.0.hi".toList (by decide)
  · exact hcomputed [] "hi".toList context _ .here (.entry rfl) "hi".toList (by decide)
  · exact (hgone (first ++ ["hi".toList]) ["length".toList] (by simp) (by simp)
      (.inr ⟨_, leads_concat_iff.mpr ⟨person, hfirst, hhi⟩⟩)).2 _ (by decide)
  · exact ((hkey "people.1".toList).2 (some .null) rfl).1 (.inr rfl)

end Stencil
