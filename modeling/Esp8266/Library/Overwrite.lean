/-! Passes over a list of updates of a map, until a pass changes nothing: keys are only
introduced, but values are overwritten. -/
namespace Esp8266.Overwrite

inductive Update (κ ν : Type) where
  | introduce (key : κ) (value : ν)
  | assign (key : κ) (value : ν)

abbrev Values (κ ν : Type) := κ → Option ν

variable {κ ν : Type} [DecidableEq κ]

def put (values : Values κ ν) (key : κ) (value : ν) : Values κ ν :=
  fun other => if other = key then some value else values other

@[simp] theorem put_same (values : Values κ ν) (key : κ) (value : ν) :
    put values key value key = some value := if_pos rfl

theorem put_other (values : Values κ ν) {key other : κ} (value : ν) (h : other ≠ key) :
    put values key value other = values other := if_neg h

theorem put_known (values : Values κ ν) (key : κ) (value : ν) {other : κ}
    (h : values other ≠ none) : put values key value other ≠ none := by
  unfold put
  split
  · exact Option.some_ne_none value
  · exact h

variable [DecidableEq ν]

def apply (values : Values κ ν) : Update κ ν → Values κ ν × Bool
  | .introduce key value =>
    if values key = none then (put values key value, true) else (values, false)
  | .assign key value =>
    if values key = none ∨ values key = some value then (values, false)
    else (put values key value, true)

def pass (values : Values κ ν) : List (Update κ ν) → Values κ ν × Bool
  | [] => (values, false)
  | update :: updates =>
    let next := apply values update
    let rest := pass next.1 updates
    (rest.1, next.2 || rest.2)

def passes (updates : List (Update κ ν)) : Nat → Values κ ν → Values κ ν
  | 0, values => values
  | n + 1, values => passes updates n (pass values updates).1

def Known (updates : List (Update κ ν)) (values : Values κ ν) (key : κ) : Prop :=
  values key ≠ none ∨ ∃ value, .introduce key value ∈ updates

def Agreeing (updates : List (Update κ ν)) (values : Values κ ν) : Prop :=
  ∀ key, Known updates values key → ∀ first second, .assign key first ∈ updates →
    .assign key second ∈ updates → first = second

section Quiet

theorem apply_introduce (values : Values κ ν) (key : κ) (value : ν) :
    apply values (.introduce key value) =
      if values key = none then (put values key value, true) else (values, false) := rfl

theorem apply_assign (values : Values κ ν) (key : κ) (value : ν) :
    apply values (.assign key value) =
      if values key = none ∨ values key = some value then (values, false)
      else (put values key value, true) := rfl

theorem apply_quiet {values : Values κ ν} {update : Update κ ν} (h : (apply values update).2 = false) :
    (apply values update).1 = values := by
  cases update with
  | introduce key value =>
    rw [apply_introduce] at h ⊢
    split at h
    · cases h
    · rename_i hthere
      rw [if_neg hthere]
  | assign key value =>
    rw [apply_assign] at h ⊢
    split at h
    · rename_i hsame
      rw [if_pos hsame]
    · cases h

theorem introduce_quiet_iff {values : Values κ ν} {key : κ} {value : ν} :
    (apply values (.introduce key value)).2 = false ↔ values key ≠ none := by
  rw [apply_introduce]
  split
  · rename_i hnone
    exact iff_of_false Bool.noConfusion fun h => h hnone
  · rename_i hthere
    exact iff_of_true rfl hthere

theorem assign_quiet_iff {values : Values κ ν} {key : κ} {value : ν} :
    (apply values (.assign key value)).2 = false ↔ values key = none ∨ values key = some value := by
  rw [apply_assign]
  split
  · rename_i hsame
    exact iff_of_true rfl hsame
  · rename_i hother
    exact iff_of_false Bool.noConfusion hother

theorem pass_quiet_iff {values : Values κ ν} {updates : List (Update κ ν)} :
    (pass values updates).2 = false ↔ ∀ update ∈ updates, (apply values update).2 = false := by
  induction updates generalizing values with
  | nil => exact iff_of_true rfl fun _ h => absurd h List.not_mem_nil
  | cons update updates ih =>
    rw [pass, Bool.or_eq_false_iff, List.forall_mem_cons]
    refine and_congr_right fun hquiet => ?_
    rw [apply_quiet hquiet]
    exact ih

theorem pass_of_quiet {values : Values κ ν} {updates : List (Update κ ν)}
    (h : (pass values updates).2 = false) : (pass values updates).1 = values := by
  induction updates generalizing values with
  | nil => rfl
  | cons update updates ih =>
    rw [pass, Bool.or_eq_false_iff] at h
    obtain ⟨hfirst, hrest⟩ := h
    have hsame := apply_quiet hfirst
    rw [hsame] at hrest
    rw [pass, hsame]
    exact ih hrest

end Quiet

section Keys
variable {values : Values κ ν} {key : κ}

theorem apply_known (update : Update κ ν) (h : values key ≠ none) :
    (apply values update).1 key ≠ none := by
  cases update with
  | introduce other value =>
    rw [apply_introduce]
    split
    · exact put_known values other value h
    · exact h
  | assign other value =>
    rw [apply_assign]
    split
    · exact h
    · exact put_known values other value h

theorem pass_known (updates : List (Update κ ν)) (h : values key ≠ none) :
    (pass values updates).1 key ≠ none := by
  induction updates generalizing values with
  | nil => exact h
  | cons update updates ih => exact ih (apply_known update h)

theorem passes_known (updates : List (Update κ ν)) (n : Nat) (h : values key ≠ none) :
    passes updates n values key ≠ none := by
  induction n generalizing values with
  | zero => exact h
  | succ n ih => exact ih (pass_known updates h)

theorem pass_introduces {updates : List (Update κ ν)} {value : ν}
    (h : .introduce key value ∈ updates) : (pass values updates).1 key ≠ none := by
  induction updates generalizing values with
  | nil => exact absurd h List.not_mem_nil
  | cons update updates ih =>
    rcases List.mem_cons.mp h with rfl | hrest
    · refine pass_known updates ?_
      rw [apply_introduce]
      split
      · exact fun h => nomatch (put_same values key value).symm.trans h
      · rename_i hthere
        exact hthere
    · exact ih hrest

theorem pass_missing {updates : List (Update κ ν)} (hnone : values key = none)
    (h : ∀ value, .introduce key value ∉ updates) : (pass values updates).1 key = none := by
  induction updates generalizing values with
  | nil => exact hnone
  | cons update updates ih =>
    refine ih ?_ fun value hmem => h value (List.mem_cons_of_mem _ hmem)
    cases update with
    | introduce other value =>
      rw [apply_introduce]
      split
      · refine (put_other values value ?_).trans hnone
        rintro rfl
        exact h value List.mem_cons_self
      · exact hnone
    | assign other value =>
      rw [apply_assign]
      split
      · exact hnone
      · rename_i hother
        refine (put_other values value ?_).trans hnone
        rintro rfl
        exact hother (Or.inl hnone)

theorem pass_keeps {updates : List (Update κ ν)} {value : ν} (hvalue : values key = some value)
    (h : ∀ other, .assign key other ∈ updates → other = value) :
    (pass values updates).1 key = some value := by
  induction updates generalizing values with
  | nil => exact hvalue
  | cons update updates ih =>
    refine ih ?_ fun other hmem => h other (List.mem_cons_of_mem _ hmem)
    have hthere : values key ≠ none := hvalue ▸ Option.some_ne_none value
    cases update with
    | introduce other first =>
      rw [apply_introduce]
      split
      · rename_i hnone
        refine (put_other values first ?_).trans hvalue
        rintro rfl
        exact hthere hnone
      · exact hvalue
    | assign other second =>
      rw [apply_assign]
      split
      · exact hvalue
      · by_cases hsame : key = other
        · subst hsame
          rw [← h second List.mem_cons_self]
          exact put_same values key second
        · exact (put_other values second hsame).trans hvalue

theorem pass_assigns {updates : List (Update κ ν)} {value : ν} (hthere : values key ≠ none)
    (hmem : .assign key value ∈ updates)
    (h : ∀ other, .assign key other ∈ updates → other = value) :
    (pass values updates).1 key = some value := by
  induction updates generalizing values with
  | nil => exact absurd hmem List.not_mem_nil
  | cons update updates ih =>
    have hrest : ∀ other, .assign key other ∈ updates → other = value :=
      fun other hmem => h other (List.mem_cons_of_mem _ hmem)
    rcases List.mem_cons.mp hmem with rfl | htail
    · rw [pass]
      refine pass_keeps ?_ hrest
      rw [apply_assign]
      split
      · rename_i hsame
        exact hsame.resolve_left hthere
      · exact put_same values key value
    · exact ih (apply_known update hthere) htail hrest

end Keys

theorem settles_iff (values : Values κ ν) (updates : List (Update κ ν)) :
    (∃ n, (pass (passes updates n values) updates).2 = false) ↔ Agreeing updates values := by
  constructor
  · rintro ⟨n, hquiet⟩ key hknown first second hfirst hsecond
    rw [pass_quiet_iff] at hquiet
    have hthere : passes updates n values key ≠ none := by
      rcases hknown with hthere | ⟨value, hintroduce⟩
      · exact passes_known updates n hthere
      · exact introduce_quiet_iff.mp (hquiet _ hintroduce)
    have hone := (assign_quiet_iff.mp (hquiet _ hfirst)).resolve_left hthere
    have htwo := (assign_quiet_iff.mp (hquiet _ hsecond)).resolve_left hthere
    exact Option.some.inj (hone.symm.trans htwo)
  · -- the first pass introduces every key, the second sets every value
    intro hagree
    refine ⟨2, pass_quiet_iff.mpr fun update hmem => ?_⟩
    cases update with
    | introduce key value => exact introduce_quiet_iff.mpr (pass_known _ (pass_introduces hmem))
    | assign key value =>
      rw [assign_quiet_iff]
      by_cases hknown : Known updates values key
      · refine Or.inr (pass_assigns ?_ hmem fun other hother => hagree key hknown _ _ hother hmem)
        rcases hknown with hthere | ⟨first, hintroduce⟩
        · exact pass_known updates hthere
        · exact pass_introduces hintroduce
      · have hmissing : ∀ first, .introduce key first ∉ updates :=
          fun first hfirst => hknown (Or.inr ⟨first, hfirst⟩)
        have hnone : values key = none :=
          Classical.byContradiction fun hthere => hknown (Or.inl hthere)
        exact Or.inl (pass_missing (pass_missing hnone hmissing) hmissing)

theorem passes_stay {values : Values κ ν} {updates : List (Update κ ν)} {n : Nat}
    (h : (pass (passes updates n values) updates).2 = false) (more : Nat) :
    (pass (passes updates (n + more) values) updates).2 = false := by
  induction n generalizing values with
  | zero =>
    induction more with
    | zero => exact h
    | succ more ih =>
      have hsame : (pass values updates).1 = values := pass_of_quiet h
      rw [Nat.zero_add] at ih ⊢
      rw [passes, hsame]
      exact ih
  | succ n ih =>
    rw [Nat.succ_add, passes]
    exact ih h

end Esp8266.Overwrite
