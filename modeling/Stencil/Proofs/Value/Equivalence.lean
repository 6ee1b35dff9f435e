import Mathlib.Data.List.Perm.Subperm
import Stencil.Value.Equality
import Stencil.Proofs.Value.Parts

/-!
# Equality of values is a partial equivalence

Equality is symmetric and transitive, and a value equals itself unless a computed entry or what is
no number is in it at some depth. Mappings are compared by their lengths and by looking each key of
the first one up in the second. As keys are distinct, mappings that pass hold the same keys
(`mem_keys_iff_of_eqv`), so the comparison is the same from both sides and the order of the keys
does not matter.
-/

set_option autoImplicit false

namespace Stencil

/-! ## Numbers -/

namespace Binary64

variable {x y z : Binary64}

theorem eqv_symm (h : x.eqv y = true) : y.eqv x = true := by
  simp only [eqv, Bool.and_eq_true, Bool.or_eq_true, decide_eq_true_eq] at h ⊢
  exact ⟨h.1.symm, h.2.imp And.symm Eq.symm⟩

theorem eqv_trans (hxy : x.eqv y = true) (hyz : y.eqv z = true) : x.eqv z = true := by
  simp only [eqv, Bool.and_eq_true, Bool.or_eq_true, decide_eq_true_eq] at hxy hyz ⊢
  refine ⟨⟨hxy.1.1, hyz.1.2⟩, ?_⟩
  rcases hxy.2 with ⟨hx, -⟩ | rfl
  · rcases hyz.2 with ⟨-, hz⟩ | rfl
    · exact .inl ⟨hx, hz⟩
    · exact hxy.2
  · exact hyz.2

theorem eqv_self_iff : x.eqv x = true ↔ x.isNaN = false := by simp [eqv]

end Binary64

namespace Value

variable {κ : Type}

/-! ## What is equal to a value -/

section Inversion

variable {value : Value κ}

theorem eqv_number (x y : Binary64) : (number x : Value κ).eqv (number y) = x.eqv y := rfl

theorem eqv_sequence (items others : List (Value κ)) :
    (sequence items).eqv (sequence others) = eqvItems items others := rfl

theorem eqv_mapping (entries others : List (Text × Value κ)) :
    (mapping entries).eqv (mapping others)
      = (entries.length == others.length && eqvEntries entries others) := rfl

theorem eq_of_null_eqv (h : null.eqv value = true) : value = .null := by
  cases value with
  | null => rfl
  | _ => cases h

theorem eq_of_bool_eqv {b : Bool} (h : (bool b).eqv value = true) : value = .bool b := by
  cases value with
  | bool other => exact congrArg bool (eq_of_beq h).symm
  | _ => cases h

theorem eq_of_text_eqv {content : Text} (h : (text content).eqv value = true) :
    value = .text content := by
  cases value with
  | text other => exact congrArg text (eq_of_beq h).symm
  | _ => cases h

theorem exists_of_number_eqv {x : Binary64} (h : (number x).eqv value = true) :
    ∃ y, value = .number y := by
  cases value with
  | number y => exact ⟨y, rfl⟩
  | _ => cases h

theorem exists_of_sequence_eqv {items : List (Value κ)} (h : (sequence items).eqv value = true) :
    ∃ others, value = .sequence others := by
  cases value with
  | sequence others => exact ⟨others, rfl⟩
  | _ => cases h

theorem exists_of_mapping_eqv {entries : List (Text × Value κ)}
    (h : (mapping entries).eqv value = true) : ∃ others, value = .mapping others := by
  cases value with
  | mapping others => exact ⟨others, rfl⟩
  | _ => cases h

theorem computed_eqv (computation : κ) (value : Value κ) :
    (computed computation).eqv value = false := by
  cases value <;> rfl

end Inversion

/-! ## Items and entries -/

theorem eqvItems_cons (a b : Value κ) (items others : List (Value κ)) :
    eqvItems (a :: items) (b :: others) = (a.eqv b && eqvItems items others) := rfl

theorem eqvEntries_cons (key : Text) (a : Value κ) (entries others : List (Text × Value κ)) :
    eqvEntries ((key, a) :: entries) others
      = ((match lookup? key others with
          | some b => a.eqv b
          | none => false) && eqvEntries entries others) := rfl

theorem eqvItems_iff {items others : List (Value κ)} :
    eqvItems items others = true ↔ items.length = others.length ∧
      ∀ i (hi : i < items.length) (ho : i < others.length), items[i].eqv others[i] = true := by
  induction items generalizing others with
  | nil =>
    cases others with
    | nil => exact ⟨fun _ => ⟨rfl, fun i hi => absurd hi (Nat.not_lt_zero i)⟩, fun _ => rfl⟩
    | cons other more => exact ⟨nofun, fun h => nomatch h.1⟩
  | cons item rest ih =>
    cases others with
    | nil => exact ⟨nofun, fun h => nomatch h.1⟩
    | cons other more =>
      rw [eqvItems_cons, Bool.and_eq_true, ih]
      constructor
      · rintro ⟨hhead, hlength, htail⟩
        refine ⟨congrArg (· + 1) hlength, fun i hi ho => ?_⟩
        cases i with
        | zero => exact hhead
        | succ i => exact htail i _ _
      · rintro ⟨hlength, hall⟩
        exact ⟨hall 0 (by simp) (by simp), Nat.succ.inj hlength, fun i hi ho =>
          hall (i + 1) (Nat.succ_lt_succ hi) (Nat.succ_lt_succ ho)⟩

theorem eqvEntries_iff {entries others : List (Text × Value κ)} :
    eqvEntries entries others = true ↔
      ∀ entry ∈ entries, ∃ b, lookup? entry.1 others = some b ∧ entry.2.eqv b = true := by
  induction entries with
  | nil => exact ⟨fun _ entry hentry => (List.not_mem_nil hentry).elim, fun _ => rfl⟩
  | cons entry rest ih =>
    obtain ⟨key, a⟩ := entry
    rw [eqvEntries_cons, Bool.and_eq_true, ih, List.forall_mem_cons]
    refine and_congr_left fun _ => ?_
    cases lookup? key others <;> simp

/-! ## Mappings -/

section Mappings

variable {entries others : List (Text × Value κ)}

theorem eqv_mapping_iff : (mapping entries).eqv (mapping others) = true ↔
    entries.length = others.length ∧
      ∀ entry ∈ entries, ∃ b, lookup? entry.1 others = some b ∧ entry.2.eqv b = true := by
  rw [eqv_mapping, Bool.and_eq_true, beq_iff_eq, eqvEntries_iff]

/-- As many distinct keys that are all among some distinct keys are all of those. -/
theorem mem_keys_iff_of_eqv (hentries : (entries.map (·.1)).Nodup)
    (h : (mapping entries).eqv (mapping others) = true) (key : Text) :
    key ∈ entries.map (·.1) ↔ key ∈ others.map (·.1) := by
  obtain ⟨hlength, hfound⟩ := eqv_mapping_iff.mp h
  have hsubset : entries.map (·.1) ⊆ others.map (·.1) := by
    rintro _ hkey
    obtain ⟨entry, hentry, rfl⟩ := List.mem_map.mp hkey
    obtain ⟨b, hb, -⟩ := hfound entry hentry
    exact List.mem_map.mpr ⟨_, mem_of_lookup? hb, rfl⟩
  have hperm : (entries.map (·.1)).Perm (others.map (·.1)) :=
    (List.subperm_of_subset hentries hsubset).perm_of_length_le (by simp [hlength])
  exact hperm.mem_iff

/-- Where a key is repeated the two sides of the comparison are not alike. -/
example :
    let twice : Value Nat := .mapping [(['k'], .null), (['k'], .null)]
    let once : Value Nat := .mapping [(['k'], .null), (['l'], .null)]
    twice.eqv once = true ∧ once.eqv twice = false := by decide

/-- Mappings are equal exactly when they hold the same keys and under each key equal values. -/
theorem eqv_mapping_iff_keys (hentries : (entries.map (·.1)).Nodup)
    (hothers : (others.map (·.1)).Nodup) : (mapping entries).eqv (mapping others) = true ↔
      (∀ key, key ∈ entries.map (·.1) ↔ key ∈ others.map (·.1)) ∧
      ∀ key a b, lookup? key entries = some a → lookup? key others = some b → a.eqv b = true := by
  constructor
  · intro h
    refine ⟨mem_keys_iff_of_eqv hentries h, fun key a b ha hb => ?_⟩
    obtain ⟨b', hb', hab⟩ := (eqv_mapping_iff.mp h).2 (key, a) (mem_of_lookup? ha)
    rwa [Option.some.inj (hb'.symm.trans hb)] at hab
  · rintro ⟨hkeys, hvalues⟩
    have hperm := (List.perm_ext_iff_of_nodup hentries hothers).mpr hkeys
    refine eqv_mapping_iff.mpr ⟨by simpa using hperm.length_eq, fun entry hentry => ?_⟩
    obtain ⟨other, hother, hkey⟩ :=
      List.mem_map.mp ((hkeys entry.1).mp (List.mem_map_of_mem hentry))
    have hb : lookup? entry.1 others = some other.2 := hkey ▸ lookup?_of_mem hothers hother
    exact ⟨other.2, hb, hvalues entry.1 _ _ (lookup?_of_mem hentries hentry) hb⟩

end Mappings

/-! ## Symmetry -/

theorem eqv_symm {a b : Value κ} (ha : a.Keyed) (hb : b.Keyed) (h : a.eqv b = true) :
    b.eqv a = true := by
  induction a using value_induction generalizing b with
  | null =>
    obtain rfl := eq_of_null_eqv h
    exact h
  | bool value =>
    obtain rfl := eq_of_bool_eqv h
    exact h
  | number x =>
    obtain ⟨y, rfl⟩ := exists_of_number_eqv h
    exact Binary64.eqv_symm h
  | text content =>
    obtain rfl := eq_of_text_eqv h
    exact h
  | sequence items ih =>
    obtain ⟨others, rfl⟩ := exists_of_sequence_eqv h
    rw [eqv_sequence, eqvItems_iff] at h ⊢
    refine ⟨h.1.symm, fun i ho hi => ?_⟩
    exact ih items[i] (List.getElem_mem hi) (keyed_sequence.mp ha _ (List.getElem_mem hi))
      (keyed_sequence.mp hb _ (List.getElem_mem ho)) (h.2 i hi ho)
  | mapping entries ih =>
    obtain ⟨others, rfl⟩ := exists_of_mapping_eqv h
    obtain ⟨hentries, hka⟩ := keyed_mapping.mp ha
    obtain ⟨hothers, hkb⟩ := keyed_mapping.mp hb
    obtain ⟨hkeys, hvalues⟩ := (eqv_mapping_iff_keys hentries hothers).mp h
    refine (eqv_mapping_iff_keys hothers hentries).mpr
      ⟨fun key => (hkeys key).symm, fun key b a hb ha => ?_⟩
    have hmem := mem_of_lookup? ha
    exact ih _ hmem (hka _ hmem) (hkb _ (mem_of_lookup? hb)) (hvalues key a b ha hb)
  | computed computation =>
    rw [computed_eqv] at h
    cases h

/-! ## Transitivity -/

theorem eqv_trans {a b c : Value κ} (hab : a.eqv b = true) (hbc : b.eqv c = true) :
    a.eqv c = true := by
  induction a using value_induction generalizing b c with
  | null =>
    obtain rfl := eq_of_null_eqv hab
    exact hbc
  | bool value =>
    obtain rfl := eq_of_bool_eqv hab
    exact hbc
  | number x =>
    obtain ⟨y, rfl⟩ := exists_of_number_eqv hab
    obtain ⟨z, rfl⟩ := exists_of_number_eqv hbc
    exact Binary64.eqv_trans hab hbc
  | text content =>
    obtain rfl := eq_of_text_eqv hab
    exact hbc
  | sequence items ih =>
    obtain ⟨others, rfl⟩ := exists_of_sequence_eqv hab
    obtain ⟨more, rfl⟩ := exists_of_sequence_eqv hbc
    rw [eqv_sequence, eqvItems_iff] at hab hbc ⊢
    refine ⟨hab.1.trans hbc.1, fun i hi hm => ?_⟩
    have ho : i < others.length := hab.1 ▸ hi
    exact ih _ (List.getElem_mem hi) (hab.2 i hi ho) (hbc.2 i ho hm)
  | mapping entries ih =>
    obtain ⟨others, rfl⟩ := exists_of_mapping_eqv hab
    obtain ⟨more, rfl⟩ := exists_of_mapping_eqv hbc
    rw [eqv_mapping_iff] at hab hbc ⊢
    refine ⟨hab.1.trans hbc.1, fun entry hentry => ?_⟩
    obtain ⟨b, hb, heqv⟩ := hab.2 entry hentry
    obtain ⟨c, hc, heqv'⟩ := hbc.2 (entry.1, b) (mem_of_lookup? hb)
    exact ⟨c, hc, ih entry hentry heqv heqv'⟩
  | computed computation =>
    rw [computed_eqv] at hab
    cases hab

/-! ## Reflexivity -/

theorem eqv_self_sequence {items : List (Value κ)} :
    (sequence items).eqv (sequence items) = true ↔ ∀ item ∈ items, item.eqv item = true := by
  rw [eqv_sequence, eqvItems_iff, List.forall_mem_iff_getElem]
  simp

theorem eqv_self_mapping {entries : List (Text × Value κ)} (h : (entries.map (·.1)).Nodup) :
    (mapping entries).eqv (mapping entries) = true ↔
      ∀ entry ∈ entries, entry.2.eqv entry.2 = true := by
  rw [eqv_mapping_iff, eq_self, true_and]
  refine forall₂_congr fun entry hentry => ?_
  rw [lookup?_of_mem h hentry]
  simp

/-- A value equals itself unless a computed entry or what is no number is in it. -/
theorem eqv_self_iff {value : Value κ} (hkeyed : value.Keyed) :
    value.eqv value = true ↔ value.Plain fun x => !x.isNaN := by
  induction value using value_induction with
  | number x => rw [plain_number, Bool.not_eq_true', eqv_number, Binary64.eqv_self_iff]
  | sequence items ih =>
    rw [eqv_self_sequence, plain_sequence]
    exact forall₂_congr fun item hitem => ih item hitem (keyed_sequence.mp hkeyed item hitem)
  | mapping entries ih =>
    obtain ⟨hnodup, hvalues⟩ := keyed_mapping.mp hkeyed
    rw [eqv_self_mapping hnodup, plain_mapping]
    exact forall₂_congr fun entry hentry => ih entry hentry (hvalues entry hentry)
  | computed computation =>
    rw [computed_eqv]
    exact ⟨nofun, fun h => (not_plain_computed computation h).elim⟩
  | null => exact iff_of_true rfl plain_null
  | bool value => exact iff_of_true (beq_self_eq_true value) (plain_bool value)
  | text content => exact iff_of_true (beq_self_eq_true content) (plain_text content)

/-! ## The equivalence -/

/-- **Equality of values is a partial equivalence.** It is symmetric and transitive, a value equals
itself exactly when no computed entry and nothing that is no number is in it at any depth, and
mappings are equal exactly when they hold the same keys and under each key equal values, in
whatever order. The values are those whose mappings are made by putting entries one after the other
(`keyed_iff_built`). -/
theorem eqv_partial_equivalence :
    (∀ a b : Value κ, a.Keyed → b.Keyed → a.eqv b = true → b.eqv a = true) ∧
    (∀ a b c : Value κ, a.eqv b = true → b.eqv c = true → a.eqv c = true) ∧
    (∀ value : Value κ, value.Keyed → (value.eqv value = true ↔ value.Plain fun x => !x.isNaN)) ∧
    ∀ entries others : List (Text × Value κ),
      (entries.map (·.1)).Nodup → (others.map (·.1)).Nodup →
      ((mapping entries).eqv (mapping others) = true ↔
        (∀ key, key ∈ entries.map (·.1) ↔ key ∈ others.map (·.1)) ∧
        ∀ key a b, lookup? key entries = some a → lookup? key others = some b →
          a.eqv b = true) := by
  refine ⟨fun a b ha hb h => ?_, fun a b c hab hbc => ?_, fun value h => ?_,
    fun entries others hentries hothers => ?_⟩
  · exact eqv_symm ha hb h
  · exact eqv_trans hab hbc
  · exact eqv_self_iff h
  · exact eqv_mapping_iff_keys hentries hothers

/-- Two mappings whose keys stand in different orders and whose zeros have different signs, and a
sequence that holds what is no number. -/
theorem eqv_partial_equivalence_zeros :
    let left : Value Nat := .mapping [(['n'], .sequence [.number (.zero true)]), (['t'], .null)]
    let right : Value Nat := .mapping [(['t'], .null), (['n'], .sequence [.number (.zero false)])]
    let unequal : Value Nat := .sequence [.number .nan]
    left.Keyed ∧ right.Keyed ∧ left.eqv right = true ∧ right.eqv left = true ∧
      left.eqv left = true ∧ left.Plain (fun x => !x.isNaN) ∧
      (∀ key : Text, key ∈ [['n'], ['t']] ↔ key ∈ [['t'], ['n']]) ∧
      unequal.Keyed ∧ unequal.eqv unequal = false ∧ ¬ unequal.Plain fun x => !x.isNaN := by
  intro left right unequal
  obtain ⟨hsymm, htrans, hself, hkeys⟩ := @eqv_partial_equivalence Nat
  have hleft : left.Keyed := keyed_mapping.mpr ⟨by decide, by
    simp [keyed_sequence, keyed_of_forall_ne]⟩
  have hright : right.Keyed := keyed_mapping.mpr ⟨by decide, by
    simp [keyed_sequence, keyed_of_forall_ne]⟩
  have hunequal : unequal.Keyed := keyed_sequence.mpr (by simp [keyed_of_forall_ne])
  have heqv : left.eqv right = true := by decide
  have hback : right.eqv left = true := hsymm left right hleft hright heqv
  have hagain : left.eqv left = true := htrans left right left heqv hback
  have hnot : unequal.eqv unequal = false := by decide
  exact ⟨hleft, hright, heqv, hback, hagain, (hself left hleft).mp hagain,
    ((hkeys _ _ (by decide) (by decide)).mp heqv).1, hunequal, hnot, fun hplain =>
      Bool.false_ne_true (hnot.symm.trans ((hself unequal hunequal).mpr hplain))⟩

end Value

end Stencil
