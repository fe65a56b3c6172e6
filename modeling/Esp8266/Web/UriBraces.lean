import Esp8266.Library.Substring
import Esp8266.Web.Text

/-! `UriBraces::canHandle`: a pattern of literal text and placeholders, read from left to right
beside the request. -/
namespace Esp8266.Web
open Esp8266.Substring

/-- The loop of `canHandle`, on what is left of the pattern and of the request. -/
def braces : List UInt8 → List UInt8 → List (List UInt8) → Bool × List (List UInt8)
  | [], requestUri, pathArgs => (requestUri.isEmpty, pathArgs)
  | uriChar :: uri, requestUri, pathArgs =>
    if uriChar = requestUri.headD 0 then braces uri requestUri.tail pathArgs
    else if uriChar ≠ 123 then (false, pathArgs)
    else
      -- behind the brace that closes
      match uri with
      | _ :: charEnd :: behind =>
        match strchr charEnd requestUri with
        | none => (false, pathArgs)
        | some index =>
          braces behind (requestUri.drop (index + 1)) (pathArgs ++ [requestUri.take index])
      | _ => ((firstIndex [47] (visible requestUri)).isNone, pathArgs ++ [requestUri])

def canHandle (uri requestUri : List UInt8) (pathArgs : List (List UInt8)) :
    Bool × List (List UInt8) :=
  if equals uri requestUri then (true, pathArgs) else braces uri requestUri []

structure BracePattern where
  first : List UInt8
  literals : List (List UInt8)
  plain : ∀ literal ∈ first :: literals, ∀ c ∈ literal, c ≠ 0 ∧ c ≠ 123
  separated : ∀ literal ∈ literals.dropLast, literal ≠ []

def placeholders (literals : List (List UInt8)) : List UInt8 :=
  literals.flatMap fun literal => 123 :: 125 :: literal

def fillAll : List (List UInt8) → List (Option (List UInt8)) → List UInt8
  | literal :: literals, fill :: fills => fill.getD [123, 125] ++ (literal ++ fillAll literals fills)
  | _, _ => []

/-- A value that a placeholder can stand for in front of a text: no brace opens it, and it ends
where the text begins, or at the end of the request. -/
def FitsBefore (literal value : List UInt8) : Prop :=
  value.head? ≠ some 123 ∧
    match literal with
    | [] => 47 ∉ visible value
    | charEnd :: _ => 0 ∉ value ∧ charEnd ∉ value

def Fits : List (List UInt8) → List (Option (List UInt8)) → Prop
  | [], [] => True
  | literal :: literals, fill :: fills => (∀ value ∈ fill, FitsBefore literal value) ∧ Fits literals fills
  | _, _ => False

namespace BracePattern

def text (p : BracePattern) : List UInt8 := p.first ++ placeholders p.literals

def fill (p : BracePattern) (fills : List (Option (List UInt8))) : List UInt8 :=
  p.first ++ fillAll p.literals fills

def substitute (p : BracePattern) (values : List (List UInt8)) : List UInt8 :=
  p.fill (values.map some)

def Choice (p : BracePattern) (values : List (List UInt8)) : Prop :=
  values.length = p.literals.length ∧
    ∀ pair ∈ p.literals.zip values, 47 ∉ pair.2 ∧ ∀ charEnd ∈ pair.1.head?, charEnd ∉ pair.2

def Readable (p : BracePattern) (values : List (List UInt8)) : Prop :=
  ∀ pair ∈ p.literals.zip values, pair.2.head? ≠ some 123 ∧ (pair.1 ≠ [] → 0 ∉ pair.2)

def Sound (p : BracePattern) (requestUri : List UInt8) : Prop :=
  ∀ pathArgs args, equals p.text requestUri = false →
    canHandle p.text requestUri pathArgs = (true, args) →
    args.length = p.literals.length ∧ p.substitute args = requestUri ∧ ∀ arg ∈ args, 47 ∉ arg

end BracePattern

section Loop
variable {requestUri : List UInt8} {pathArgs args : List (List UInt8)}

theorem braces_same {uriChar : UInt8} (h : uriChar = requestUri.headD 0) (uri : List UInt8) :
    braces (uriChar :: uri) requestUri pathArgs = braces uri requestUri.tail pathArgs := by
  rw [braces.eq_def]
  exact if_pos h

theorem braces_other {uriChar : UInt8} (h : uriChar ≠ requestUri.headD 0) (hbrace : uriChar ≠ 123)
    (uri : List UInt8) : braces (uriChar :: uri) requestUri pathArgs = (false, pathArgs) := by
  rw [braces.eq_def]
  exact (if_neg h).trans (if_pos hbrace)

theorem braces_literal {literal : List UInt8} (hplain : ∀ c ∈ literal, c ≠ 0 ∧ c ≠ 123)
    (uri : List UInt8) :
    braces (literal ++ uri) requestUri pathArgs =
      if literal <+: requestUri then braces uri (requestUri.drop literal.length) pathArgs
      else (false, pathArgs) := by
  induction literal generalizing requestUri with
  | nil => simp
  | cons c literal ih =>
    obtain ⟨hzero, hbrace⟩ := hplain c List.mem_cons_self
    have hrest := @ih requestUri.tail fun d hd => hplain d (List.mem_cons_of_mem c hd)
    rw [List.cons_append]
    cases requestUri with
    | nil =>
      rw [braces_other hzero hbrace]
      simp
    | cons d requestUri =>
      by_cases hsame : c = d
      · subst hsame
        rw [List.tail_cons] at hrest
        have hhead : c = (c :: requestUri).headD 0 := rfl
        rw [braces_same hhead, List.tail_cons, hrest]
        simp [List.cons_prefix_cons]
      · have hhead : c ≠ (d :: requestUri).headD 0 := hsame
        rw [braces_other hhead hbrace]
        simp [hsame, List.cons_prefix_cons]

theorem separated_cons {literal : List UInt8} {literals : List (List UInt8)}
    (h : ∀ other ∈ (literal :: literals).dropLast, other ≠ []) :
    (literal = [] → literals = []) ∧ ∀ other ∈ literals.dropLast, other ≠ [] := by
  cases literals with
  | nil => exact ⟨fun _ => rfl, fun _ hother => (nomatch hother)⟩
  | cons next literals =>
    exact ⟨fun hnil => absurd hnil (h literal List.mem_cons_self),
      fun other hother => h other (List.mem_cons_of_mem literal hother)⟩

theorem placeholders_cons (literal : List UInt8) (literals : List (List UInt8)) :
    placeholders (literal :: literals) = 123 :: 125 :: (literal ++ placeholders literals) := rfl

theorem strchr_some {ch : UInt8} {text : List UInt8} {index : Nat} (h : strchr ch text = some index) :
    text = text.take index ++ ch :: text.drop (index + 1) ∧ ch ∉ text.take index ∧
      0 ∉ text.take index := by
  induction text generalizing index with
  | nil => cases h
  | cons c text ih =>
    rw [strchr] at h
    by_cases hhere : c = ch
    · rw [if_pos hhere] at h
      cases h
      simp [hhere]
    · by_cases hzero : c = 0
      · rw [if_neg hhere, if_pos hzero] at h
        cases h
      · rw [if_neg hhere, if_neg hzero] at h
        obtain ⟨rest, hrest, rfl⟩ := Option.map_eq_some_iff.mp h
        obtain ⟨hsplit, hch, hnul⟩ := ih hrest
        refine ⟨congrArg (c :: ·) hsplit, ?_, ?_⟩
        · simp [Ne.symm hhere, hch]
        · simp [Ne.symm hzero, hnul]

theorem braces_kept (uri rest : List UInt8) :
    braces (123 :: 125 :: uri) (123 :: rest) pathArgs =
      if rest.head? = some 125 then braces uri rest.tail pathArgs else (false, pathArgs) := by
  have hopen : (123 : UInt8) = (123 :: rest).headD 0 := rfl
  rw [braces_same hopen, List.tail_cons]
  cases rest with
  | nil => exact braces_other (by decide) (by decide) uri
  | cons c rest =>
    by_cases hclose : c = 125
    · subst hclose
      have hhead : (125 : UInt8) = (125 :: rest).headD 0 := rfl
      rw [braces_same hhead]
      rfl
    · have hhead : (125 : UInt8) ≠ (c :: rest).headD 0 := Ne.symm hclose
      have hother : (c :: rest).head? ≠ some 125 := fun h => hclose (Option.some.inj h)
      rw [braces_other hhead (by decide), if_neg hother]

theorem not_kept (h : requestUri.head? ≠ some 123) : (123 : UInt8) ≠ requestUri.headD 0 := by
  cases requestUri with
  | nil => decide
  | cons c rest => exact fun hc => h (congrArg some hc.symm)

theorem braces_value (h : requestUri.head? ≠ some 123) (charEnd : UInt8) (uri : List UInt8) :
    braces (123 :: 125 :: charEnd :: uri) requestUri pathArgs =
      match strchr charEnd requestUri with
      | none => (false, pathArgs)
      | some index =>
        braces uri (requestUri.drop (index + 1)) (pathArgs ++ [requestUri.take index]) := by
  rw [braces.eq_def]
  exact (if_neg (not_kept h)).trans (if_neg (by decide))

theorem braces_end (h : requestUri.head? ≠ some 123) :
    braces [123, 125] requestUri pathArgs =
      (decide (47 ∉ visible requestUri), pathArgs ++ [requestUri]) := by
  have hslash : (firstIndex [47] (visible requestUri)).isNone =
      decide (47 ∉ visible requestUri) := by
    cases hfirst : firstIndex [47] (visible requestUri) with
    | none =>
      have habsent : 47 ∉ visible requestUri := by
        intro hmem
        obtain ⟨i, hi, hat⟩ := List.mem_iff_getElem.mp hmem
        apply firstIndex_none hfirst i
        rw [List.drop_eq_getElem_cons hi, hat]
        exact ⟨_, rfl⟩
      simp [habsent]
    | some i =>
      have hmem : 47 ∈ visible requestUri :=
        List.mem_of_mem_drop ((firstIndex_some hfirst).1.subset List.mem_cons_self)
      simp [hmem]
  rw [braces.eq_def, ← hslash]
  exact (if_neg (not_kept h)).trans (if_neg (by decide))

theorem FitsBefore.not_kept {literal value rest : List UInt8} (h : FitsBefore literal value)
    (hplain : ∀ c ∈ literal, c ≠ 0 ∧ c ≠ 123) (hlast : literal = [] → rest = []) :
    (value ++ (literal ++ rest)).head? ≠ some 123 := by
  cases value with
  | cons c value => exact h.1
  | nil =>
    cases literal with
    | nil =>
      rw [hlast rfl]
      exact fun hc => nomatch hc
    | cons c literal => exact fun hc => (hplain c List.mem_cons_self).2 (Option.some.inj hc)

theorem braces_fills {literals : List (List UInt8)}
    (hplain : ∀ literal ∈ literals, ∀ c ∈ literal, c ≠ 0 ∧ c ≠ 123)
    (hseparated : ∀ literal ∈ literals.dropLast, literal ≠ [])
    (h : braces (placeholders literals) requestUri pathArgs = (true, args)) :
    ∃ fills, Fits literals fills ∧ requestUri = fillAll literals fills ∧
      args = pathArgs ++ fills.filterMap id := by
  induction literals generalizing requestUri pathArgs with
  | nil =>
    obtain ⟨hempty, rfl⟩ := Prod.mk.inj h
    exact ⟨[], trivial, List.isEmpty_iff.mp hempty, (List.append_nil _).symm⟩
  | cons literal literals ih =>
    have hliteral := hplain literal List.mem_cons_self
    have htail := fun other hother => hplain other (List.mem_cons_of_mem literal hother)
    obtain ⟨hlast, hrest⟩ := separated_cons hseparated
    rw [placeholders_cons] at h
    by_cases hkept : requestUri.head? = some 123
    · obtain ⟨rest, rfl⟩ : ∃ rest, requestUri = 123 :: rest := List.head?_eq_some_iff.mp hkept
      rw [braces_kept] at h
      split at h
      · rename_i hclose
        obtain ⟨behind, rfl⟩ := List.head?_eq_some_iff.mp hclose
        rw [List.tail_cons, braces_literal hliteral] at h
        split at h
        · rename_i hleads
          obtain ⟨fills, hfits, hfill, hargs⟩ := ih htail hrest h
          refine ⟨none :: fills, ⟨fun _ hnone => (nomatch hnone), hfits⟩, ?_, hargs⟩
          rw [fillAll, ← hfill, List.prefix_iff_eq_append.mp hleads]
          rfl
        · cases h
      · cases h
    · cases literal with
      | nil =>
        obtain rfl := hlast rfl
        rw [List.nil_append, placeholders, List.flatMap_nil, braces_end hkept] at h
        obtain ⟨hslash, rfl⟩ := Prod.mk.inj h
        refine ⟨[some requestUri], ⟨?_, trivial⟩, ?_, rfl⟩
        · rintro value ⟨⟩
          exact ⟨hkept, of_decide_eq_true hslash⟩
        · simp [fillAll]
      | cons charEnd literal =>
        rw [List.cons_append, braces_value hkept] at h
        cases hindex : strchr charEnd requestUri with
        | none =>
          rw [hindex] at h
          cases h
        | some index =>
          obtain ⟨hsplit, hend, hnul⟩ := strchr_some hindex
          rw [hindex] at h
          dsimp only at h
          rw [braces_literal fun c hc => hliteral c (List.mem_cons_of_mem charEnd hc)] at h
          split at h
          · rename_i hleads
            obtain ⟨fills, hfits, hfill, hargs⟩ := ih htail hrest h
            refine ⟨some (requestUri.take index) :: fills, ⟨?_, hfits⟩, ?_, ?_⟩
            · rintro value ⟨⟩
              refine ⟨?_, hnul, hend⟩
              intro hbrace
              rw [hsplit, List.head?_append, hbrace] at hkept
              exact hkept rfl
            · rw [fillAll, ← hfill, Option.getD_some, List.cons_append,
                List.prefix_iff_eq_append.mp hleads]
              exact hsplit
            · rw [hargs, List.append_assoc]
              rfl
          · cases h

theorem braces_accepts {literals : List (List UInt8)}
    (hplain : ∀ literal ∈ literals, ∀ c ∈ literal, c ≠ 0 ∧ c ≠ 123)
    (hseparated : ∀ literal ∈ literals.dropLast, literal ≠ []) {fills : List (Option (List UInt8))}
    (hfits : Fits literals fills) :
    braces (placeholders literals) (fillAll literals fills) pathArgs =
      (true, pathArgs ++ fills.filterMap id) := by
  induction literals generalizing fills pathArgs with
  | nil =>
    cases fills with
    | nil => simp [placeholders, fillAll, braces]
    | cons fill fills => cases hfits
  | cons literal literals ih =>
    cases fills with
    | nil => cases hfits
    | cons fill fills =>
      have hliteral := hplain literal List.mem_cons_self
      have htail := fun other hother => hplain other (List.mem_cons_of_mem literal hother)
      obtain ⟨hlast, hrest⟩ := separated_cons hseparated
      have hbehind := fun args => @ih args htail hrest fills hfits.2
      rw [placeholders_cons, fillAll]
      cases fill with
      | none =>
        show braces _ (123 :: 125 :: (literal ++ fillAll literals fills)) _ = _
        have hclose : (125 :: (literal ++ fillAll literals fills)).head? = some 125 := rfl
        rw [braces_kept, if_pos hclose, List.tail_cons, braces_literal hliteral,
          if_pos (List.prefix_append _ _), List.drop_left, hbehind]
        rfl
      | some value =>
        have hvalue : FitsBefore literal value := hfits.1 value rfl
        have hnone : literal = [] → fillAll literals fills = [] := by
          intro hnil
          rw [hlast hnil]
          rfl
        have hkept := hvalue.not_kept hliteral hnone
        rw [Option.getD_some]
        cases literal with
        | nil =>
          have hfills : fills = [] := by
            have hfits' := hfits.2
            rw [hlast rfl] at hfits'
            cases fills with
            | nil => rfl
            | cons fill fills => cases hfits'
          rw [hnone rfl, List.append_nil] at hkept ⊢
          rw [List.append_nil] at hkept ⊢
          rw [hlast rfl, hfills, List.nil_append, placeholders, List.flatMap_nil, braces_end hkept,
            decide_eq_true hvalue.2]
          rfl
        | cons charEnd literal =>
          have hindex : strchr charEnd (value ++ (charEnd :: literal ++ fillAll literals fills)) =
              some value.length := by
            rw [strchr_append hvalue.2.2, if_neg hvalue.2.1]
            simp [strchr]
          have hdrop : (value ++ (charEnd :: literal ++ fillAll literals fills)).drop
              (value.length + 1) = literal ++ fillAll literals fills := by
            rw [← List.drop_drop, List.drop_left]
            rfl
          rw [List.cons_append, braces_value hkept, hindex]
          dsimp only
          rw [hdrop, List.take_left,
            braces_literal fun c hc => hliteral c (List.mem_cons_of_mem charEnd hc),
            if_pos (List.prefix_append _ _), List.drop_left, hbehind, List.append_assoc]
          rfl

end Loop

theorem Fits.length {literals : List (List UInt8)} {fills : List (Option (List UInt8))}
    (h : Fits literals fills) : fills.length = literals.length := by
  induction literals generalizing fills with
  | nil =>
    cases fills with
    | nil => rfl
    | cons fill fills => cases h
  | cons literal literals ih =>
    cases fills with
    | nil => cases h
    | cons fill fills => exact congrArg (· + 1) (ih h.2)

theorem none_absent {fills : List (Option α)} (h : (fills.filterMap id).length = fills.length) :
    none ∉ fills := by
  intro hnone
  have hsome := List.filterMap_length_eq_length.mp h none hnone
  cases hsome

theorem all_some {fills : List (Option α)} (h : none ∉ fills) :
    fills = (fills.filterMap id).map some := by
  induction fills with
  | nil => rfl
  | cons fill fills ih =>
    rw [List.mem_cons, not_or] at h
    cases fill with
    | none => exact absurd rfl h.1
    | some value => exact congrArg (some value :: ·) (ih h.2)

namespace BracePattern
variable (p : BracePattern)

theorem text_nonzero : ∀ c ∈ p.text, c ≠ 0 := by
  intro c hc
  rw [text, List.mem_append] at hc
  cases hc with
  | inl hfirst => exact (p.plain p.first List.mem_cons_self c hfirst).1
  | inr hrest =>
    obtain ⟨literal, hliteral, hmem⟩ := List.mem_flatMap.mp hrest
    rw [List.mem_cons, List.mem_cons] at hmem
    rcases hmem with rfl | rfl | hmem
    · decide
    · decide
    · exact (p.plain literal (List.mem_cons_of_mem _ hliteral) c hmem).1

theorem equals_text (requestUri : List UInt8) :
    equals p.text requestUri = true ↔ requestUri = p.text := by
  have hvisible : visible p.text = p.text := visible_eq p.text_nonzero
  unfold equals
  rw [Bool.and_eq_true, decide_eq_true_iff, decide_eq_true_iff, hvisible]
  constructor
  · rintro ⟨hlength, hsame⟩
    have hleads : p.text <+: requestUri := hsame ▸ List.takeWhile_prefix _
    exact (hleads.eq_of_length hlength).symm
  · rintro rfl
    exact ⟨rfl, hvisible.symm⟩

theorem braces_text {requestUri : List UInt8} {args : List (List UInt8)} :
    braces p.text requestUri [] = (true, args) ↔
      ∃ fills, Fits p.literals fills ∧ requestUri = p.fill fills ∧ args = fills.filterMap id := by
  have hplain := fun literal hliteral => p.plain literal (List.mem_cons_of_mem p.first hliteral)
  rw [text, braces_literal (p.plain p.first List.mem_cons_self)]
  constructor
  · intro h
    split at h
    · rename_i hleads
      obtain ⟨fills, hfits, hfill, hargs⟩ := braces_fills hplain p.separated h
      refine ⟨fills, hfits, ?_, hargs⟩
      rw [fill, ← hfill]
      exact (List.prefix_iff_eq_append.mp hleads).symm
    · cases h
  · rintro ⟨fills, hfits, rfl, rfl⟩
    rw [fill, if_pos (List.prefix_append _ _), List.drop_left]
    exact braces_accepts hplain p.separated hfits

theorem canHandle_other {requestUri : List UInt8} (h : requestUri ≠ p.text)
    (pathArgs : List (List UInt8)) :
    canHandle p.text requestUri pathArgs = braces p.text requestUri [] :=
  if_neg fun hequal => h ((p.equals_text requestUri).mp hequal)

theorem sound_request_iff (requestUri : List UInt8) : p.Sound requestUri ↔ requestUri = p.text ∨
    ∀ fills, Fits p.literals fills → requestUri = p.fill fills →
      none ∉ fills ∧ ∀ value, some value ∈ fills → 47 ∉ value := by
  by_cases htext : requestUri = p.text
  · refine iff_of_true ?_ (.inl htext)
    intro pathArgs args hother
    rw [(p.equals_text requestUri).mpr htext] at hother
    cases hother
  · have hother : equals p.text requestUri = false :=
      Bool.eq_false_iff.mpr fun h => htext ((p.equals_text requestUri).mp h)
    constructor
    · intro hsound
      refine .inr fun fills hfits hfill => ?_
      have haccepted := p.canHandle_other htext []
      rw [p.braces_text.mpr ⟨fills, hfits, hfill, rfl⟩] at haccepted
      obtain ⟨hlength, -, hslash⟩ := hsound [] _ hother haccepted
      constructor
      · exact none_absent (hlength.trans hfits.length.symm)
      · intro value hvalue
        exact hslash value (List.mem_filterMap.mpr ⟨some value, hvalue, rfl⟩)
    · rintro (hsame | hfills) pathArgs args - haccepted
      · exact absurd hsame htext
      · rw [p.canHandle_other htext, p.braces_text] at haccepted
        obtain ⟨fills, hfits, hfill, rfl⟩ := haccepted
        obtain ⟨hnone, hslash⟩ := hfills fills hfits hfill
        have hall := all_some hnone
        refine ⟨?_, ?_, ?_⟩
        · rw [← hfits.length, hall, List.length_map]
          simp
        · rw [substitute, ← hall, hfill]
        · intro arg harg
          obtain ⟨fill, hmem, hid⟩ := List.mem_filterMap.mp harg
          exact hslash arg (hid ▸ hmem)

theorem fits_iff {literals values : List (List UInt8)} (hlength : values.length = literals.length)
    (hchoice : ∀ pair ∈ literals.zip values, 47 ∉ pair.2 ∧ ∀ charEnd ∈ pair.1.head?, charEnd ∉ pair.2) :
    Fits literals (values.map some) ↔
      ∀ pair ∈ literals.zip values, pair.2.head? ≠ some 123 ∧ (pair.1 ≠ [] → 0 ∉ pair.2) := by
  induction literals generalizing values with
  | nil =>
    obtain rfl := List.length_eq_zero_iff.mp hlength
    simp [Fits]
  | cons literal literals ih =>
    cases values with
    | nil => cases hlength
    | cons value values =>
      rw [List.zip_cons_cons] at hchoice ⊢
      obtain ⟨⟨hslash, hend⟩, hrest⟩ := List.forall_mem_cons.mp hchoice
      rw [List.forall_mem_cons, ← ih (Nat.succ.inj hlength) hrest, List.map_cons, Fits]
      have hvalue : (∀ other ∈ some value, FitsBefore literal other) ↔
          value.head? ≠ some 123 ∧ (literal ≠ [] → 0 ∉ value) := by
        cases literal with
        | nil =>
          have hvisible : 47 ∉ visible value :=
            fun h => hslash ((List.takeWhile_sublist _).subset h)
          simp [FitsBefore, hvisible]
        | cons charEnd literal =>
          have habsent := hend charEnd rfl
          simp [FitsBefore, habsent]
      rw [hvalue]

theorem complete_iff {values : List (List UInt8)} (h : p.Choice values)
    (pathArgs : List (List UInt8)) :
    canHandle p.text (p.substitute values) pathArgs = (true, values) ↔
      p.substitute values = p.text ∧ pathArgs = values ∨
        p.substitute values ≠ p.text ∧ p.Readable values := by
  by_cases htext : p.substitute values = p.text
  · rw [canHandle, if_pos ((p.equals_text _).mpr htext)]
    simp [htext]
  · rw [p.canHandle_other htext, p.braces_text]
    have hfits := fits_iff h.1 h.2
    constructor
    · rintro ⟨fills, hother, hfill, hargs⟩
      have hall : fills = (fills.filterMap id).map some := by
        apply all_some
        apply none_absent
        rw [← hargs, h.1, hother.length]
      rw [hall, ← hargs] at hother
      exact .inr ⟨htext, hfits.mp hother⟩
    · rintro (⟨hsame, -⟩ | ⟨-, hreadable⟩)
      · exact absurd hsame htext
      · exact ⟨values.map some, hfits.mpr hreadable, rfl, by simp [List.filterMap_map]⟩

/-- The pattern is sound for a request that does not have placeholders left, or slashes in what is
taken for values, and complete for values that do not look like placeholders. -/
theorem braces_exact :
    (∀ requestUri, p.Sound requestUri ↔ requestUri = p.text ∨
      ∀ fills, Fits p.literals fills → requestUri = p.fill fills →
        none ∉ fills ∧ ∀ value, some value ∈ fills → 47 ∉ value) ∧
    ∀ values pathArgs, p.Choice values →
      (canHandle p.text (p.substitute values) pathArgs = (true, values) ↔
        p.substitute values = p.text ∧ pathArgs = values ∨
          p.substitute values ≠ p.text ∧ p.Readable values) := by
  constructor
  · intro requestUri
    exact p.sound_request_iff requestUri
  · intro values pathArgs h
    exact p.complete_iff h pathArgs

def dashPattern : BracePattern where
  first := [47]
  literals := [[45, 98]]
  plain := by simp
  separated := by simp

theorem braces_exact_dash :
    canHandle dashPattern.text (dashPattern.substitute [[97]]) [] = (true, [[97]]) := by
  have hchoice : dashPattern.Choice [[97]] := by
    refine ⟨rfl, ?_⟩
    simp [dashPattern]
  have hreadable : dashPattern.Readable [[97]] := by
    simp [BracePattern.Readable, dashPattern]
  exact (dashPattern.braces_exact.2 [[97]] [] hchoice).mpr (.inr ⟨by decide, hreadable⟩)

theorem slash_accepted : ¬ ∀ p : BracePattern, (∀ requestUri, p.Sound requestUri) ∧
    ∀ values pathArgs, p.Choice values →
      canHandle p.text (p.substitute values) pathArgs = (true, values) := by
  intro hall
  have hsound := (hall dashPattern).1 [47, 117, 47, 118, 45, 98] [] [[117, 47, 118]] (by decide)
    (by decide)
  exact hsound.2.2 [117, 47, 118] List.mem_cons_self (by decide)

end BracePattern

end Esp8266.Web
