import Mathlib.Algebra.Group.Nat.Defs

/-! Texts made of number fields with separators between them, for a reader that multiplies and
adds digit by digit and gives up once the number leaves its range. -/
namespace Esp8266.Fields

def separated (sep : UInt8) : List (List UInt8) → List UInt8
  | [] => []
  | [field] => field
  | field :: next :: fields => field ++ sep :: separated sep (next :: fields)

section
variable (digit : UInt8 → Option Nat) (base : Nat)

def value (acc : Nat) (field : List UInt8) : Nat :=
  field.foldl (fun acc c => acc * base + (digit c).getD 0) acc

structure Number (limit acc : Nat) (field : List UInt8) : Prop where
  digits : ∀ c ∈ field, (digit c).isSome
  fits : value digit base acc field ≤ limit

end

variable {digit : UInt8 → Option Nat} {base limit : Nat}

theorem separated_cons {sep : UInt8} (field : List UInt8) {fields : List (List UInt8)}
    (h : fields ≠ []) :
    separated sep (field :: fields) = field ++ sep :: separated sep fields := by
  cases fields with
  | nil => exact absurd rfl h
  | cons next fields => rfl

theorem separated_length (sep : UInt8) (fields : List (List UInt8)) (h : ∀ f ∈ fields, f ≠ []) :
    2 * fields.length ≤ (separated sep fields).length + 1 := by
  induction fields with
  | nil => exact Nat.zero_le _
  | cons field fields ih =>
    have hfield : 0 < field.length := List.length_pos_iff.mpr (h field List.mem_cons_self)
    have hfields := ih fun f hf => h f (List.mem_cons_of_mem field hf)
    cases fields with
    | nil =>
      show 2 ≤ field.length + 1
      omega
    | cons next fields =>
      simp only [separated_cons field (List.cons_ne_nil next fields), List.length_append,
        List.length_cons] at hfields ⊢
      omega

theorem value_cons (acc : Nat) (c : UInt8) (field : List UInt8) :
    value digit base acc (c :: field) = value digit base (acc * base + (digit c).getD 0) field :=
  rfl

variable (digit) in
theorem le_value (hbase : 0 < base) (acc : Nat) (field : List UInt8) :
    acc ≤ value digit base acc field := by
  induction field generalizing acc with
  | nil => exact Nat.le_refl acc
  | cons c field ih =>
    have hscaled : acc ≤ acc * base := Nat.le_mul_of_pos_right acc hbase
    have hrest := ih (acc * base + (digit c).getD 0)
    rw [value_cons]
    omega

theorem Number.nil {acc : Nat} (h : acc ≤ limit) : Number digit base limit acc [] :=
  ⟨fun _ hc => absurd hc List.not_mem_nil, h⟩

theorem Number.tail {acc : Nat} {c : UInt8} {field : List UInt8}
    (h : Number digit base limit acc (c :: field)) :
    Number digit base limit (acc * base + (digit c).getD 0) field :=
  ⟨fun d hd => h.digits d (List.mem_cons_of_mem c hd), h.fits⟩

theorem Number.cons {acc : Nat} {c : UInt8} {field : List UInt8} (hdigit : (digit c).isSome)
    (h : Number digit base limit (acc * base + (digit c).getD 0) field) :
    Number digit base limit acc (c :: field) := by
  refine ⟨?_, h.fits⟩
  intro d hd
  cases List.mem_cons.mp hd with
  | inl hfirst => exact hfirst ▸ hdigit
  | inr hrest => exact h.digits d hrest

theorem Number.read {β : Type} (hbase : 0 < base) (read : List UInt8 → Nat → β)
    (step : ∀ c d acc rest, digit c = some d → acc * base + d ≤ limit →
      read (c :: rest) acc = read rest (acc * base + d))
    {acc : Nat} {field : List UInt8} (h : Number digit base limit acc field)
    (rest : List UInt8) :
    read (field ++ rest) acc = read rest (value digit base acc field) := by
  induction field generalizing acc with
  | nil => rfl
  | cons c field ih =>
    obtain ⟨d, hd⟩ := Option.isSome_iff_exists.mp (h.digits c List.mem_cons_self)
    have hd' : (digit c).getD 0 = d := by
      rw [hd]
      rfl
    have hfits : acc * base + d ≤ limit := by
      have hle := le_value digit hbase (acc * base + d) field
      have htotal := h.fits
      rw [value_cons, hd'] at htotal
      omega
    rw [List.cons_append, step c d acc _ hd hfits, value_cons, hd']
    exact ih (hd' ▸ h.tail)

variable (digit base) in
theorem splits (acc : Nat) (hacc : acc ≤ limit) (text : List UInt8) :
    Number digit base limit acc text ∨
    (∃ field c rest, text = field ++ c :: rest ∧ Number digit base limit acc field ∧
      digit c = none) ∨
    ∃ field c d rest, text = field ++ c :: rest ∧ Number digit base limit acc field ∧
      digit c = some d ∧ limit < value digit base acc field * base + d := by
  induction text generalizing acc with
  | nil => exact .inl (.nil hacc)
  | cons c text ih =>
    cases hdigit : digit c with
    | none => exact .inr (.inl ⟨[], c, text, rfl, .nil hacc, hdigit⟩)
    | some d =>
      have hsome : (digit c).isSome := by
        rw [hdigit]
        rfl
      have hvalue : (digit c).getD 0 = d := by
        rw [hdigit]
        rfl
      by_cases hfits : acc * base + d ≤ limit
      · -- the character belongs to the field, whatever ends it
        rcases ih (acc * base + d) hfits with hall | ⟨field, stop, rest, rfl, hfield, hstop⟩ |
          ⟨field, stop, high, rest, rfl, hfield, hstop, hhigh⟩
        · exact .inl (.cons hsome (hvalue.symm ▸ hall))
        · exact .inr (.inl ⟨c :: field, stop, rest, rfl, .cons hsome (hvalue.symm ▸ hfield), hstop⟩)
        · refine .inr (.inr ⟨c :: field, stop, high, rest, rfl,
            .cons hsome (hvalue.symm ▸ hfield), hstop, ?_⟩)
          rw [value_cons, hvalue]
          exact hhigh
      · exact .inr (.inr ⟨[], c, d, text, rfl, .nil hacc, hdigit, Nat.lt_of_not_le hfits⟩)

end Esp8266.Fields
