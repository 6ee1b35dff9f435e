import Stencil.Proofs.Number.Exact
import Stencil.Proofs.Value.Equivalence
import Stencil.Value.Printing

/-!
# Values through JSON

A value that is written to JSON and read back is the value stripped of what JSON cannot hold:
computed entries are gone from mappings, and elsewhere they and the numbers that are not finite are
null. Nothing else changes, but that a zero loses its sign (`ofJson_toJson`), which equality does
not see.
-/

set_option autoImplicit false

namespace Stencil

/-! ## Numbers -/

namespace Binary64

variable {x : Binary64}

theorem isFinite_of_isZero (h : x.isZero = true) : x.isFinite = true := by
  rw [eq_zero_of_isZero h]
  rfl

theorem isNaN_of_isFinite (h : x.isFinite = true) : x.isNaN = false := by
  simp_all [isFinite, isNaN]

theorem isIntegral_of_isZero (h : x.isZero = true) : x.isIntegral = true := by
  rw [isIntegral, isFinite_of_isZero h, isZero_iff_significand.mp h, Nat.zero_mod]
  simp

theorem truncated_of_isZero (h : x.isZero = true) : x.truncated = 0 := by
  rw [truncated, isZero_iff_significand.mp h, Nat.zero_div, Nat.zero_mul, ite_self]

theorem toJson_of_isZero (h : x.isZero = true) : x.toJson = .number (.integer 0) := by
  have hsmall : x.isIntegral = true ∧ x.truncated < twoTo 63 :=
    ⟨isIntegral_of_isZero h, by rw [truncated_of_isZero h]; exact Nat.two_pow_pos 63⟩
  rw [toJson, if_pos hsmall, toInt, truncated_of_isZero h]
  simp

theorem toJson_of_not_isFinite (h : x.isFinite ≠ true) : x.toJson = .null := by
  rw [toJson, if_neg fun hsmall => h (isFinite_of_isIntegral hsmall.1), if_neg h]

theorem isZero_unsignedZero (x : Binary64) : x.unsignedZero.isZero = x.isZero := by
  rw [unsignedZero]
  split
  · next h => rw [h]; rfl
  · rfl

theorem toJson_unsignedZero (x : Binary64) : x.unsignedZero.toJson = x.toJson := by
  by_cases h : x.isZero = true
  · rw [toJson_of_isZero h, toJson_of_isZero ((isZero_unsignedZero x).trans h)]
  · rw [unsignedZero, if_neg h]

/-- Equality does not see the sign of zero. -/
theorem unsignedZero_eqv (x y : Binary64) : x.unsignedZero.eqv y = x.eqv y := by
  by_cases h : x.isZero = true
  · have hzero (z : Binary64) (hz : z.isZero = true) : z.eqv y = (!y.isNaN && y.isZero) := by
      have hne : decide (z = y) = true → y.isZero = true := fun heq =>
        of_decide_eq_true heq ▸ hz
      rw [eqv, isNaN_of_isFinite (isFinite_of_isZero hz), hz]
      cases hy : y.isZero <;> simp_all
    rw [hzero x h, hzero _ ((isZero_unsignedZero x).trans h)]
  · rw [unsignedZero, if_neg h]

end Binary64

namespace Value

variable {κ : Type}

/-! ## Stripping -/

mutual

/-- The value without what JSON cannot hold. -/
def strip : Value κ → Value κ
  | .computed _ => .null
  | .number x => if x.isFinite then .number x else .null
  | .sequence items => .sequence (stripItems items)
  | .mapping entries => .mapping (stripEntries entries)
  | value => value

/-- The items stripped, each in its place. -/
def stripItems : List (Value κ) → List (Value κ)
  | [] => []
  | item :: rest => strip item :: stripItems rest

/-- The entries stripped, without those that are computed. -/
def stripEntries : List (Text × Value κ) → List (Text × Value κ)
  | [] => []
  | (key, value) :: rest =>
    if value.isComputed then stripEntries rest else (key, strip value) :: stripEntries rest

end

theorem stripItems_eq_map (items : List (Value κ)) : stripItems items = items.map strip := by
  induction items with
  | nil => rfl
  | cons item rest ih => exact congrArg (strip item :: ·) ih

theorem stripEntries_cons (key : Text) (value : Value κ) (rest : List (Text × Value κ)) :
    stripEntries ((key, value) :: rest)
      = if value.isComputed then stripEntries rest
        else (key, strip value) :: stripEntries rest := rfl

theorem stripEntries_eq_map (entries : List (Text × Value κ)) : stripEntries entries
    = (entries.filter fun entry => !entry.2.isComputed).map
      fun entry => (entry.1, entry.2.strip) := by
  induction entries with
  | nil => rfl
  | cons entry rest ih =>
    rw [stripEntries_cons, ih]
    cases h : entry.2.isComputed <;> simp [h]

theorem strip_number (x : Binary64) :
    (number x : Value κ).strip = if x.isFinite then .number x else .null := rfl

theorem strip_sequence (items : List (Value κ)) :
    (sequence items).strip = .sequence (items.map strip) :=
  congrArg sequence (stripItems_eq_map items)

theorem strip_mapping (entries : List (Text × Value κ)) : (mapping entries).strip
    = .mapping ((entries.filter fun entry => !entry.2.isComputed).map
        fun entry => (entry.1, entry.2.strip)) :=
  congrArg mapping (stripEntries_eq_map entries)

/-! ## Zeros without signs -/

mutual

/-- The value with zeros that have no sign. -/
def unsignedZeros : Value κ → Value κ
  | .number x => .number x.unsignedZero
  | .sequence items => .sequence (unsignedZerosItems items)
  | .mapping entries => .mapping (unsignedZerosEntries entries)
  | value => value

/-- The items with zeros that have no sign. -/
def unsignedZerosItems : List (Value κ) → List (Value κ)
  | [] => []
  | item :: rest => unsignedZeros item :: unsignedZerosItems rest

/-- The entries with zeros that have no sign. -/
def unsignedZerosEntries : List (Text × Value κ) → List (Text × Value κ)
  | [] => []
  | (key, value) :: rest => (key, unsignedZeros value) :: unsignedZerosEntries rest

end

section Strip

variable {value : Value κ}

theorem isComputed_strip (value : Value κ) : value.strip.isComputed = false := by
  cases value with
  | number x =>
    rw [strip_number]
    split <;> rfl
  | _ => rfl

theorem isComputed_unsignedZeros (value : Value κ) :
    value.unsignedZeros.isComputed = value.isComputed := by
  cases value <;> rfl

/-- Stripping takes keys away, and puts none in. -/
theorem keyed_strip (h : value.Keyed) : value.strip.Keyed := by
  induction value using value_induction with
  | number x =>
    rw [strip_number]
    split <;> exact keyed_of_forall_ne (by simp) (by simp)
  | sequence items ih =>
    rw [strip_sequence, keyed_sequence, List.forall_mem_map]
    exact fun item hitem => ih item hitem (keyed_sequence.mp h item hitem)
  | mapping entries ih =>
    obtain ⟨hnodup, hvalues⟩ := keyed_mapping.mp h
    rw [strip_mapping, keyed_mapping, List.forall_mem_map, List.map_map]
    refine ⟨hnodup.sublist (List.filter_sublist.map _), fun entry hentry => ?_⟩
    have hmem := List.mem_of_mem_filter hentry
    exact ih entry hmem (hvalues entry hmem)
  | computed computation => exact keyed_of_forall_ne nofun nofun
  | null | bool | text => exact h

/-- Nothing that JSON cannot hold is left. -/
theorem plain_strip (value : Value κ) : value.strip.Plain Binary64.isFinite := by
  induction value using value_induction with
  | number x =>
    rw [strip_number]
    split
    · next h => exact plain_number.mpr h
    · exact plain_null
  | sequence items ih =>
    rw [strip_sequence, plain_sequence, List.forall_mem_map]
    exact ih
  | mapping entries ih =>
    rw [strip_mapping, plain_mapping, List.forall_mem_map]
    exact fun entry hentry => ih entry (List.mem_of_mem_filter hentry)
  | bool value => exact plain_bool value
  | text content => exact plain_text content
  | null | computed => exact plain_null

theorem isComputed_of_plain {good : Binary64 → Bool} (h : value.Plain good) :
    value.isComputed = false := by
  cases value with
  | computed computation => exact absurd h (not_plain_computed computation)
  | _ => rfl

/-- A value that JSON can hold is left as it is. -/
theorem strip_of_plain (h : value.Plain Binary64.isFinite) : value.strip = value := by
  induction value using value_induction with
  | number x => rw [strip_number, if_pos (plain_number.mp h)]
  | sequence items ih =>
    have hitems := plain_sequence.mp h
    have hsame : items.map strip = items.map id :=
      List.map_congr_left fun item hitem => ih item hitem (hitems item hitem)
    rw [strip_sequence, hsame, List.map_id]
  | mapping entries ih =>
    have hentries := plain_mapping.mp h
    have hall : entries.filter (fun entry => !entry.2.isComputed) = entries :=
      List.filter_eq_self.mpr fun entry hentry => by
        rw [isComputed_of_plain (hentries entry hentry), Bool.not_false]
    have hsame : entries.map (fun entry => (entry.1, entry.2.strip)) = entries.map id :=
      List.map_congr_left fun entry hentry =>
        Prod.ext rfl (ih entry hentry (hentries entry hentry))
    rw [strip_mapping, hall, hsame, List.map_id]
  | computed computation => exact absurd h (not_plain_computed computation)
  | null | bool | text => rfl

theorem plain_notNaN (h : value.Plain Binary64.isFinite) : value.Plain fun x => !x.isNaN :=
  ⟨h.1, fun x hx => by simp [Binary64.isNaN_of_isFinite (h.2 x hx)]⟩

end Strip

/-! ## Writing and reading back -/

theorem ofJson_number (x : Binary64) :
    (ofJson x.toJson : Value κ) = if x.isFinite then .number x.unsignedZero else .null := by
  by_cases hfinite : x.isFinite = true
  · rw [if_pos hfinite, Binary64.toJson]
    split
    · next hsmall => exact congrArg number (Binary64.ofInt_toInt hsmall.1)
    · next hlarge =>
      -- zero is written as an integer
      have hzero : x.isZero ≠ true := fun hzero => hlarge
        ⟨Binary64.isIntegral_of_isZero hzero, by
          rw [Binary64.truncated_of_isZero hzero]
          exact Nat.two_pow_pos 63⟩
      rw [Binary64.unsignedZero, if_neg hzero]
      rfl
  · rw [if_neg hfinite, Binary64.toJson_of_not_isFinite hfinite]
    rfl

theorem toJsonEntries_cons (key : Text) (value : Value κ) (rest : List (Text × Value κ)) :
    toJsonEntries ((key, value) :: rest)
      = if value.isComputed then toJsonEntries rest
        else (key, value.toJson) :: toJsonEntries rest := rfl

mutual

/-- What is read back is the stripped value, with zeros that have no sign. -/
theorem ofJson_toJson : ∀ value : Value κ, ofJson value.toJson = value.strip.unsignedZeros
  | .null | .bool _ | .text _ | .computed _ => rfl
  | .number x => by
      rw [strip_number]
      refine (ofJson_number x).trans ?_
      split <;> rfl
  | .sequence items => congrArg sequence (ofJsonItems_toJsonItems items)
  | .mapping entries => congrArg mapping (ofJsonEntries_toJsonEntries entries)

theorem ofJsonItems_toJsonItems : ∀ items : List (Value κ),
    ofJsonItems (toJsonItems items) = unsignedZerosItems (stripItems items)
  | [] => rfl
  | item :: rest => congrArg₂ List.cons (ofJson_toJson item) (ofJsonItems_toJsonItems rest)

theorem ofJsonEntries_toJsonEntries : ∀ entries : List (Text × Value κ),
    ofJsonEntries (toJsonEntries entries) = unsignedZerosEntries (stripEntries entries)
  | [] => rfl
  | (key, value) :: rest => by
      rw [toJsonEntries_cons, stripEntries_cons]
      split
      · exact ofJsonEntries_toJsonEntries rest
      · exact congrArg₂ (fun value rest => (key, value) :: rest) (ofJson_toJson value)
          (ofJsonEntries_toJsonEntries rest)

end

mutual

/-- What is stripped away, and the signs of zeros, are not written. -/
theorem toJson_strip : ∀ value : Value κ, value.strip.unsignedZeros.toJson = value.toJson
  | .null | .bool _ | .text _ | .computed _ => rfl
  | .number x => by
      rw [strip_number]
      split
      · exact Binary64.toJson_unsignedZero x
      · next h => exact (Binary64.toJson_of_not_isFinite h).symm
  | .sequence items => congrArg Json.array (toJsonItems_stripItems items)
  | .mapping entries => congrArg Json.object (toJsonEntries_stripEntries entries)

theorem toJsonItems_stripItems : ∀ items : List (Value κ),
    toJsonItems (unsignedZerosItems (stripItems items)) = toJsonItems items
  | [] => rfl
  | item :: rest => congrArg₂ List.cons (toJson_strip item) (toJsonItems_stripItems rest)

theorem toJsonEntries_stripEntries : ∀ entries : List (Text × Value κ),
    toJsonEntries (unsignedZerosEntries (stripEntries entries)) = toJsonEntries entries
  | [] => rfl
  | (key, value) :: rest => by
      rw [stripEntries_cons, toJsonEntries_cons]
      split
      · exact toJsonEntries_stripEntries rest
      · have hkept : ¬ value.strip.unsignedZeros.isComputed = true := by
          rw [isComputed_unsignedZeros, isComputed_strip]
          exact Bool.false_ne_true
        refine (toJsonEntries_cons key _ _).trans ((if_neg hkept).trans ?_)
        exact congrArg₂ (fun value rest => (key, value) :: rest) (toJson_strip value)
          (toJsonEntries_stripEntries rest)

end

theorem length_unsignedZerosEntries (entries : List (Text × Value κ)) :
    (unsignedZerosEntries entries).length = entries.length := by
  induction entries with
  | nil => rfl
  | cons entry rest ih => exact congrArg (· + 1) ih

mutual

/-- Equality does not see the signs of zeros. -/
theorem unsignedZeros_eqv : ∀ value other : Value κ, value.unsignedZeros.eqv other = value.eqv other
  | .null, _ | .bool _, _ | .text _, _ | .computed _, _ => rfl
  | .number x, other => by
      cases other with
      | number y => exact Binary64.unsignedZero_eqv x y
      | _ => rfl
  | .sequence items, other => by
      cases other with
      | sequence others => exact unsignedZerosItems_eqv items others
      | _ => rfl
  | .mapping entries, other => by
      cases other with
      | mapping others =>
        rw [eqv_mapping, ← unsignedZerosEntries_eqv entries others,
          ← length_unsignedZerosEntries entries]
        rfl
      | _ => rfl

theorem unsignedZerosItems_eqv : ∀ items others : List (Value κ),
    eqvItems (unsignedZerosItems items) others = eqvItems items others
  | [], _ => rfl
  | _ :: _, [] => rfl
  | item :: rest, other :: more =>
      congrArg₂ and (unsignedZeros_eqv item other) (unsignedZerosItems_eqv rest more)

theorem unsignedZerosEntries_eqv : ∀ entries others : List (Text × Value κ),
    eqvEntries (unsignedZerosEntries entries) others = eqvEntries entries others
  | [], _ => rfl
  | (key, value) :: rest, others => by
      refine congrArg₂ and ?_ (unsignedZerosEntries_eqv rest others)
      cases lookup? key others with
      | none => rfl
      | some other => exact unsignedZeros_eqv value other

end

/-! ## The round trip -/

/-- A value read back equals the stripped one. -/
theorem ofJson_toJson_eqv {value : Value κ} (h : value.Keyed) :
    (ofJson value.toJson).eqv value.strip = true := by
  rw [ofJson_toJson, unsignedZeros_eqv]
  exact (eqv_self_iff (keyed_strip h)).mpr (plain_notNaN (plain_strip value))

/-- **Writing to JSON and reading back only strips what JSON cannot hold.** What is read back is the
stripped value, its keys and items in the same order, with zeros that have no sign, and so equals
the stripped value; it is written as the same JSON again; and values with no computed entries and
only finite numbers come back equal to themselves. -/
theorem json_round_trip (value : Value κ) :
    ofJson value.toJson = value.strip.unsignedZeros ∧
    (value.Keyed → (ofJson value.toJson).eqv value.strip = true) ∧
    (ofJson value.toJson : Value κ).toJson = value.toJson ∧
    (value.Keyed → value.Plain Binary64.isFinite →
      value.strip = value ∧ (ofJson value.toJson).eqv value = true) := by
  refine ⟨ofJson_toJson value, ofJson_toJson_eqv, ?_, fun hkeyed hplain => ?_⟩
  · rw [ofJson_toJson, toJson_strip]
  · have hstrip := strip_of_plain hplain
    have heqv := ofJson_toJson_eqv hkeyed
    rw [hstrip] at heqv
    exact ⟨hstrip, heqv⟩

/-- A computed entry in a mapping and one in a sequence, an infinity, a zero with a sign, and the
first number that is too large for an integer. -/
theorem json_round_trip_edges :
    let plain : Value Nat := .mapping
      [(['z'], .sequence [.number (.zero true)]), (['n'], .number ⟨false, 1086, 0⟩)]
    let page : Value Nat := .mapping
      [(['c'], .computed 0), (['p'], plain),
        (['s'], .sequence [.computed 1, .number (.infinity true), .bool true])]
    page.Keyed ∧ plain.Keyed ∧ plain.Plain Binary64.isFinite ∧
      page.strip = .mapping [(['p'], plain), (['s'], .sequence [.null, .null, .bool true])] ∧
      (ofJson page.toJson).eqv page.strip = true ∧
      (ofJson page.toJson : Value Nat).toJson = page.toJson ∧
      (ofJson plain.toJson).eqv plain = true := by
  intro plain page
  have hplain : plain.Keyed := keyed_mapping.mpr ⟨by decide, by
    simp [keyed_sequence, keyed_of_forall_ne]⟩
  have hpage : page.Keyed := keyed_mapping.mpr ⟨by decide, by
    simp [keyed_sequence, keyed_of_forall_ne, hplain]⟩
  have hfinite : plain.Plain Binary64.isFinite := plain_mapping.mpr (by
    simp [plain_sequence, plain_number, Binary64.isFinite, Binary64.zero])
  obtain ⟨-, heqv, hagain, -⟩ := json_round_trip page
  obtain ⟨-, -, -, hback⟩ := json_round_trip plain
  exact ⟨hpage, hplain, hfinite, rfl, heqv hpage, hagain, (hback hplain hfinite).2⟩

end Value

end Stencil
