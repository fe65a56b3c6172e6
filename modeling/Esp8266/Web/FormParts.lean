import Esp8266.Web.Form

/-! The parts of a multipart form, and that `_parseForm` ends exactly if one of them closes the
form. -/
namespace Esp8266.Web
open Esp8266.Delimiter

inductive Part where
  | line
  | unended
  | field (closing : Bool)
  | file (closing : Bool)
  deriving DecidableEq

def Part.isField : Part → Bool
  | .field _ => true
  | _ => false

def Part.closes : Part → Bool
  | .field closing => closing
  | .file closing => closing
  | _ => false

def delimiterLine (boundary : List UInt8) :
    Nat → List UInt8 → Option (List UInt8 × List UInt8)
  | 0, _ => none
  | lines + 1, client =>
    let line := readLine client
    if startsWith line.1 (dashBoundary boundary) then some line
    else delimiterLine boundary lines line.2

def isFile (line : List UInt8) (nameStart : Int) : Bool :=
  indexOf (substring line (unsigned (nameStart + 2)) (2 ^ 32 - 1)) 61 0 ≠ -1

def part (boundary : List UInt8) (stack : Nat → UInt8) (text : List UInt8) :
    Part × List UInt8 :=
  let line := readLine text
  match partStart line.1 with
  | none => (.line, line.2)
  | some nameStart =>
    let body := (partType line.2).2
    if isFile line.1 nameStart then
      match (scan (pattern boundary stack) body 0).2 with
      | none => (.file true, [])
      | some rest =>
        if rest = [] then (.file true, [])
        else (.file (equalsCstr (readLine rest).1 [45, 45]), (readLine rest).2)
    else
      match delimiterLine boundary body.length body with
      | none => (.unended, [])
      | some (line, rest) =>
        (.field (equals line (dashBoundary boundary ++ [45, 45])), rest)

def parts (boundary : List UInt8) (stack : Nat → UInt8) : Nat → List UInt8 → List Part
  | 0, _ => []
  | length + 1, text =>
    if text = [] then []
    else
      let p := part boundary stack text
      p.1 :: if p.1.closes then [] else parts boundary stack length p.2

variable {boundary : List UInt8} {stack : Nat → UInt8} {s : CurrentArgs} {len : UInt32}

theorem partNames_isFile (line : List UInt8) (nameStart : Int) :
    (partNames s line nameStart).2.isSome = isFile line nameStart := by
  unfold partNames isFile
  by_cases h : indexOf (substring line (unsigned (nameStart + 2)) (2 ^ 32 - 1)) 61 0 = -1
  · rw [if_pos h, decide_eq_false (fun hne => hne h), Option.isSome_none]
  · rw [if_neg h, decide_eq_true h, Option.isSome_some]

theorem readLine_nil : readLine [] = ([], []) := rfl

theorem not_startsWith_nil : startsWith [] (dashBoundary boundary) = false := by
  simp [startsWith, dashBoundary]

theorem delimiterLine_nil (lines : Nat) : delimiterLine boundary lines [] = none := by
  induction lines with
  | zero => rfl
  | succ lines ih =>
    rw [delimiterLine, readLine_nil]
    simp only [not_startsWith_nil, Bool.false_eq_true, if_false]
    exact ih

theorem delimiterLine_enough (client : List UInt8) (first second : Nat)
    (hfirst : client.length ≤ first) (hsecond : client.length ≤ second) :
    delimiterLine boundary first client = delimiterLine boundary second client := by
  induction first generalizing client second with
  | zero => rw [List.length_eq_zero_iff.mp (Nat.le_zero.mp hfirst), delimiterLine_nil,
      delimiterLine_nil]
  | succ first ih =>
    cases second with
    | zero => rw [List.length_eq_zero_iff.mp (Nat.le_zero.mp hsecond), delimiterLine_nil,
        delimiterLine_nil]
    | succ second =>
      have hshorter := readLine_length client
      rw [delimiterLine, delimiterLine, ih (readLine client).2 second (by omega) (by omega)]

theorem valueLoop_some {fuel : Nat} {client argValue value line rest : List UInt8}
    (h : valueLoop boundary fuel client argValue = some (value, line, rest)) :
    delimiterLine boundary client.length client = some (line, rest) := by
  induction fuel generalizing client argValue with
  | zero => cases h
  | succ fuel ih =>
    rw [valueLoop] at h
    have hshorter := readLine_length client
    cases client with
    | nil =>
      rw [readLine_nil] at h
      simp only [not_startsWith_nil, Bool.false_eq_true, if_false] at h
      exact ih h
    | cons c client =>
      rw [List.length_cons] at hshorter ⊢
      rw [delimiterLine]
      by_cases hstarts : startsWith (readLine (c :: client)).1 (dashBoundary boundary) = true
      · simp only [hstarts, if_true, Option.some.injEq, Prod.mk.injEq] at h ⊢
        exact Prod.ext h.2.1 h.2.2
      · simp only [hstarts, Bool.false_eq_true, if_false] at h ⊢
        rw [delimiterLine_enough _ client.length (readLine (c :: client)).2.length (by omega)
          (Nat.le_refl _)]
        exact ih h

theorem valueLoop_ends {lines fuel : Nat} {client line rest : List UInt8} (argValue : List UInt8)
    (h : delimiterLine boundary lines client = some (line, rest)) (hfuel : lines ≤ fuel) :
    ∃ value, valueLoop boundary fuel client argValue = some (value, line, rest) := by
  induction lines generalizing client argValue fuel with
  | zero => cases h
  | succ lines ih =>
    cases fuel with
    | zero => exact absurd hfuel (Nat.not_succ_le_zero lines)
    | succ fuel =>
      rw [delimiterLine] at h
      rw [valueLoop]
      by_cases hstarts : startsWith (readLine client).1 (dashBoundary boundary) = true
      · simp only [hstarts, if_true, Option.some.injEq] at h ⊢
        exact ⟨argValue, by rw [h]⟩
      · simp only [hstarts, Bool.false_eq_true, if_false] at h ⊢
        exact ih _ h (by omega)

theorem delimiterLine_shorter {lines : Nat} {client line rest : List UInt8}
    (h : delimiterLine boundary lines client = some (line, rest)) :
    rest.length ≤ client.length - 1 := by
  induction lines generalizing client with
  | zero => cases h
  | succ lines ih =>
    have hshorter := readLine_length client
    rw [delimiterLine] at h
    by_cases hstarts : startsWith (readLine client).1 (dashBoundary boundary) = true
    · simp only [hstarts, if_true, Option.some.injEq] at h
      rw [h] at hshorter
      exact hshorter
    · simp only [hstarts, Bool.false_eq_true, if_false] at h
      have hrest := ih h
      omega

theorem scan_shorter {pattern client rest : List UInt8} {matched : Nat}
    (h : (scan pattern client matched).2 = some rest) : rest.length ≤ client.length - 1 := by
  induction client generalizing matched with
  | nil => cases h
  | cons c client ih =>
    rw [scan] at h
    rw [List.length_cons, Nat.add_sub_cancel]
    split at h
    · split at h
      · cases h
        exact Nat.le_refl _
      · exact Nat.le_trans (ih h) (Nat.sub_le _ _)
    · split at h
      · exact Nat.le_trans (ih h) (Nat.sub_le _ _)
      · exact Nat.le_trans (ih h) (Nat.sub_le _ _)

theorem partType_length (client : List UInt8) : (partType client).2.length ≤ client.length := by
  have hline := readLine_length client
  have hnext := readLine_length (readLine client).2
  unfold partType
  simp only []
  split
  · show (readLine (readLine client).2).2.length ≤ _
    omega
  · show (readLine client).2.length ≤ _
    omega

variable (boundary stack) in
theorem part_shorter (text : List UInt8) (hne : text ≠ []) :
    (part boundary stack text).2.length < text.length := by
  have hpositive := List.length_pos_iff.mpr hne
  have hline := readLine_length text
  have hbody := partType_length (readLine text).2
  unfold part
  simp only []
  cases hstart : partStart (readLine text).1 with
  | none =>
    show (readLine text).2.length < _
    omega
  | some nameStart =>
    simp only []
    by_cases hfile : isFile (readLine text).1 nameStart = true
    · rw [if_pos hfile]
      split
      · exact hpositive
      · rename_i rest hscan
        have hrest := scan_shorter hscan
        have hlast := readLine_length rest
        split
        · exact hpositive
        · show (readLine rest).2.length < _
          omega
    · rw [if_neg hfile]
      split
      · exact hpositive
      · rename_i line rest hdelimiter
        have hrest := delimiterLine_shorter hdelimiter
        show rest.length < _
        omega

theorem part_unended {text : List UInt8} (h : (part boundary stack text).1 = .unended) :
    (part boundary stack text).2 = [] := by
  unfold part at h ⊢
  simp only [] at h ⊢
  cases hstart : partStart (readLine text).1 with
  | none =>
    rw [hstart] at h
    cases h
  | some nameStart =>
    rw [hstart] at h
    simp only [] at h ⊢
    by_cases hfile : isFile (readLine text).1 nameStart = true
    · rw [if_pos hfile] at h
      split at h
      · cases h
      · split at h <;> cases h
    · rw [if_neg hfile] at h ⊢
      split at h
      · rfl
      · cases h

structure Grows (d d' : FormData) (fields : Nat) : Prop where
  postArgs : d'.postArgs.length = d.postArgs.length + fields
  accesses : d'.accesses = d.accesses ++ List.range' d.postArgs.length fields

theorem Grows.none (d : FormData) (calls : List HTTPUpload) :
    Grows d { d with calls := calls } 0 :=
  ⟨rfl, by rw [List.range'_zero, List.append_nil]⟩

theorem Grows.store (d : FormData) (arg : RequestArgument) : Grows d (d.store arg) 1 :=
  ⟨by show (d.postArgs ++ [arg]).length = _; rw [List.length_append, List.length_singleton], rfl⟩

theorem Grows.trans {d₁ d₂ d₃ : FormData} {first second : Nat} (h₁ : Grows d₁ d₂ first)
    (h₂ : Grows d₂ d₃ second) : Grows d₁ d₃ (first + second) := by
  constructor
  · rw [h₂.postArgs, h₁.postArgs, Nat.add_assoc]
  · rw [h₂.accesses, h₁.accesses, h₁.postArgs, List.append_assoc]
    congr 1
    exact List.range'_append_1

theorem formLoop_some {fuel : Nat} {client : List UInt8} {d : FormData} {r : FormData × Bool}
    (h : formLoop boundary stack s len (fuel + 1) client d = some r) :
    let p := part boundary stack client
    p.1 ≠ .unended ∧
      if p.1.closes then Grows d r.1 p.1.isField.toNat
      else ∃ d', Grows d d' p.1.isField.toNat ∧
        formLoop boundary stack s len fuel p.2 d' = some r := by
  rw [formLoop] at h
  unfold part
  simp only [] at h ⊢
  cases hstart : partStart (readLine client).1 with
  | none =>
    rw [hstart] at h
    exact ⟨by simp, d, Grows.none d _, h⟩
  | some nameStart =>
    rw [hstart] at h
    simp only [] at h ⊢
    have hnames := partNames_isFile (s := s) (readLine client).1 nameStart
    generalize partNames s (readLine client).1 nameStart = names at h hnames
    cases hfilename : names.2 with
    | none =>
      rw [hfilename] at h hnames
      rw [← hnames]
      simp only [Option.isSome_none, Bool.false_eq_true, if_false] at h ⊢
      cases hvalue : valueLoop boundary fuel (partType (readLine client).2).2 [] with
      | none =>
        rw [hvalue] at h
        cases h
      | some found =>
        obtain ⟨value, line, rest⟩ := found
        rw [hvalue] at h
        rw [valueLoop_some hvalue]
        simp only [] at h ⊢
        refine ⟨by simp, ?_⟩
        by_cases hclosing : equals line (dashBoundary boundary ++ [45, 45]) = true
        · rw [if_pos hclosing] at h
          cases h
          simp only [Part.closes, hclosing, if_true]
          exact Grows.store d _
        · rw [if_neg hclosing] at h
          simp only [Part.closes, hclosing, Bool.false_eq_true, if_false]
          exact ⟨_, Grows.store d _, h⟩
    | some argFilename =>
      rw [hfilename] at h hnames
      rw [← hnames]
      simp only [Option.isSome_some, if_true] at h ⊢
      rw [uploadFile_scan] at h
      cases hscan : (scan (pattern boundary stack) (partType (readLine client).2).2 0).2 with
      | none =>
        rw [hscan] at h
        cases h
        exact ⟨by simp, Grows.none d _⟩
      | some rest =>
        rw [hscan] at h
        simp only [uploadScanned_left] at h ⊢
        by_cases hconnected : rest = []
        · rw [if_pos hconnected] at h ⊢
          cases h
          exact ⟨by simp, Grows.none d _⟩
        · rw [if_neg hconnected] at h ⊢
          refine ⟨by simp, ?_⟩
          by_cases hclosing : equalsCstr (readLine rest).1 [45, 45] = true
          · rw [if_pos hclosing] at h
            cases h
            simp only [Part.closes, hclosing, if_true]
            exact Grows.none d _
          · rw [if_neg hclosing] at h
            simp only [Part.closes, hclosing, Bool.false_eq_true, if_false]
            exact ⟨_, Grows.none d _, h⟩

variable (s len) in
theorem formLoop_reads {fuel : Nat} (client : List UInt8) (d : FormData)
    (hfuel : client.length ≤ fuel) (hended : (part boundary stack client).1 ≠ .unended) :
    let p := part boundary stack client
    if p.1.closes then ∃ r, formLoop boundary stack s len (fuel + 1) client d = some r
    else ∃ d', formLoop boundary stack s len (fuel + 1) client d =
      formLoop boundary stack s len fuel p.2 d' := by
  have hbody := partType_length (readLine client).2
  have hline := readLine_length client
  rw [formLoop]
  unfold part at hended ⊢
  simp only [] at hended ⊢
  cases hstart : partStart (readLine client).1 with
  | none => exact ⟨d, rfl⟩
  | some nameStart =>
    rw [hstart] at hended
    simp only [] at hended ⊢
    have hnames := partNames_isFile (s := s) (readLine client).1 nameStart
    generalize partNames s (readLine client).1 nameStart = names at hnames
    cases hfilename : names.2 with
    | none =>
      rw [hfilename] at hnames
      rw [← hnames] at hended ⊢
      simp only [Option.isSome_none, Bool.false_eq_true, if_false] at hended ⊢
      cases hdelimiter : delimiterLine boundary (partType (readLine client).2).2.length
          (partType (readLine client).2).2 with
      | none =>
        rw [hdelimiter] at hended
        exact absurd rfl hended
      | some found =>
        obtain ⟨line, rest⟩ := found
        obtain ⟨value, hvalue⟩ := valueLoop_ends [] hdelimiter (show _ ≤ fuel by omega)
        rw [hvalue]
        simp only []
        by_cases hclosing : equals line (dashBoundary boundary ++ [45, 45]) = true
        · simp only [Part.closes, hclosing, if_true]
          exact ⟨_, rfl⟩
        · simp only [Part.closes, hclosing, Bool.false_eq_true, if_false]
          exact ⟨_, rfl⟩
    | some argFilename =>
      rw [hfilename] at hnames
      rw [← hnames]
      simp only [Option.isSome_some, if_true]
      rw [uploadFile_scan]
      cases hscan : (scan (pattern boundary stack) (partType (readLine client).2).2 0).2 with
      | none => exact ⟨_, rfl⟩
      | some rest =>
        simp only [uploadScanned_left]
        by_cases hconnected : rest = []
        · rw [if_pos hconnected, if_pos hconnected]
          exact ⟨_, rfl⟩
        · rw [if_neg hconnected, if_neg hconnected]
          by_cases hclosing : equalsCstr (readLine rest).1 [45, 45] = true
          · simp only [Part.closes, hclosing, if_true]
            exact ⟨_, rfl⟩
          · simp only [Part.closes, hclosing, Bool.false_eq_true, if_false]
            exact ⟨_, rfl⟩

theorem formLoop_nil (fuel : Nat) (d : FormData) :
    formLoop boundary stack s len fuel [] d = none := by
  induction fuel with
  | zero => rfl
  | succ fuel ih => exact ih

theorem parts_nil (length : Nat) : parts boundary stack length [] = [] := by
  cases length <;> rfl

theorem parts_cons {length : Nat} {text : List UInt8} (hne : text ≠ []) :
    parts boundary stack (length + 1) text = (part boundary stack text).1 ::
      if (part boundary stack text).1.closes then []
      else parts boundary stack length (part boundary stack text).2 := by
  rw [parts, if_neg hne]

theorem formLoop_sound {fuel length : Nat} {client : List UInt8} {d : FormData}
    {r : FormData × Bool} (h : formLoop boundary stack s len fuel client d = some r)
    (hlength : client.length ≤ length) :
    (∃ p ∈ parts boundary stack length client, p.closes = true) ∧
      Grows d r.1 ((parts boundary stack length client).countP Part.isField) := by
  induction fuel generalizing client d length with
  | zero => cases h
  | succ fuel ih =>
    by_cases hnil : client = []
    · rw [hnil, formLoop_nil] at h
      cases h
    · have hpositive := List.length_pos_iff.mpr hnil
      have hshorter := part_shorter boundary stack client hnil
      obtain ⟨-, hround⟩ := formLoop_some h
      cases length with
      | zero => omega
      | succ length =>
        rw [parts_cons hnil, List.countP_cons]
        generalize part boundary stack client = p at hround hshorter ⊢
        have hcount : (if p.1.isField = true then 1 else 0) = p.1.isField.toNat := by
          cases p.1.isField <;> rfl
        rw [hcount]
        cases hcloses : p.1.closes with
        | true =>
          rw [hcloses, if_pos rfl] at hround
          simp only [if_true, List.countP_nil, Nat.zero_add]
          exact ⟨⟨p.1, List.mem_cons_self .., hcloses⟩, hround⟩
        | false =>
          rw [hcloses] at hround
          simp only [Bool.false_eq_true, if_false] at hround ⊢
          obtain ⟨d', hfirst, hrest⟩ := hround
          obtain ⟨⟨q, hmem, hq⟩, hgrows⟩ := ih hrest (show p.2.length ≤ length by omega)
          refine ⟨⟨q, List.mem_cons_of_mem _ hmem, hq⟩, ?_⟩
          rw [Nat.add_comm]
          exact hfirst.trans hgrows

theorem formLoop_complete (length : Nat) (client : List UInt8) (hlength : client.length ≤ length)
    (hcloses : ∃ p ∈ parts boundary stack length client, p.closes = true) :
    ∃ enough, ∀ fuel, enough ≤ fuel → ∀ d,
      ∃ r, formLoop boundary stack s len fuel client d = some r := by
  induction length generalizing client with
  | zero =>
    obtain ⟨p, hmem, -⟩ := hcloses
    exact absurd hmem List.not_mem_nil
  | succ length ih =>
    by_cases hnil : client = []
    · rw [hnil, parts_nil] at hcloses
      obtain ⟨p, hmem, -⟩ := hcloses
      exact absurd hmem List.not_mem_nil
    · have hshorter := part_shorter boundary stack client hnil
      rw [parts_cons hnil] at hcloses
      have hreads := fun (fuel : Nat) (d : FormData) (hfuel : client.length ≤ fuel)
        (hended : (part boundary stack client).1 ≠ .unended) =>
          formLoop_reads s len client d hfuel hended
      cases hfirst : (part boundary stack client).1.closes with
      | true =>
        have hended : (part boundary stack client).1 ≠ .unended := by
          intro hunended
          rw [hunended] at hfirst
          cases hfirst
        refine ⟨client.length + 1, fun fuel hfuel d => ?_⟩
        cases fuel with
        | zero => omega
        | succ fuel =>
          have hround := hreads fuel d (by omega) hended
          simp only [hfirst, if_true] at hround
          exact hround
      | false =>
        simp only [hfirst, Bool.false_eq_true, if_false] at hcloses
        have hrest : ∃ p ∈ parts boundary stack length (part boundary stack client).2,
            p.closes = true := by
          obtain ⟨p, hmem, hp⟩ := hcloses
          cases List.mem_cons.mp hmem with
          | inl hhead =>
            rw [hhead, hfirst] at hp
            cases hp
          | inr htail => exact ⟨p, htail, hp⟩
        have hended : (part boundary stack client).1 ≠ .unended := by
          intro hunended
          rw [part_unended hunended, parts_nil] at hrest
          obtain ⟨p, hmem, -⟩ := hrest
          exact absurd hmem List.not_mem_nil
        obtain ⟨enough, hmore⟩ := ih _ (by omega) hrest
        refine ⟨max enough client.length + 1, fun fuel hfuel d => ?_⟩
        cases fuel with
        | zero => omega
        | succ fuel =>
          have hround := hreads fuel d (by omega) hended
          simp only [hfirst, Bool.false_eq_true, if_false] at hround
          obtain ⟨d', hnext⟩ := hround
          rw [hnext]
          exact hmore fuel (by omega) d'

def FormCloses (boundary : List UInt8) (stack : Nat → UInt8) (text : List UInt8) : Prop :=
  (∃ p ∈ parts boundary stack text.length text, p.closes = true) ∧
    (parts boundary stack text.length text).countP Part.isField ≤ webserverMaxPostArgs

theorem accesses_inside (fields : Nat) :
    (∀ i ∈ List.range' 0 fields, i < webserverMaxPostArgs) ↔ fields ≤ webserverMaxPostArgs := by
  constructor
  · intro h
    apply Nat.le_of_not_lt
    intro hlt
    exact absurd (h webserverMaxPostArgs (List.mem_range'_1.mpr (by omega))) (Nat.lt_irrefl _)
  · intro h i hi
    have hlt := (List.mem_range'_1.mp hi).2
    omega

theorem mergeArgs_inside {d : FormData} {fields : Nat} (h : Grows ⟨[], [], []⟩ d fields)
    (hroom : fields ≤ webserverMaxPostArgs) :
    ∀ i ∈ (mergeArgs s d).accesses, i < webserverMaxPostArgs := by
  have hlength : d.postArgs.length = fields := by simpa using h.postArgs
  intro i hi
  unfold mergeArgs at hi
  simp only [hlength, h.accesses, List.nil_append, List.length_nil, List.mem_append,
    List.mem_range'_1, List.mem_range, List.length_append, List.length_take] at hi
  have htotal : (if (webserverMaxPostArgs : Int) - fields < s.currentArgCount then
      (webserverMaxPostArgs : Int) - fields else s.currentArgCount).toNat ≤
        webserverMaxPostArgs - fields := by
    split <;> omega
  omega

/-- `_parseForm` ends with all accesses inside `postArgs` exactly if the stream does not start
with the boundary or its parts close the form in time. -/
theorem parseForm_bounded_iff (boundary : List UInt8) (stack : Nat → UInt8) (s : CurrentArgs)
    (len : UInt32) (client : List UInt8) :
    (∃ fuel r, parseForm boundary stack s len fuel client = some r ∧
        ∀ i ∈ r.accesses, i < webserverMaxPostArgs) ↔
      (equals (firstLine 3 client).1 (dashBoundary boundary) = true →
        FormCloses boundary stack (readStringUntil 10 (firstLine 3 client).2).2) := by
  unfold parseForm
  by_cases hfirst : equals (firstLine 3 client).1 (dashBoundary boundary) = true
  · simp only [hfirst, if_true, true_implies]
    generalize (readStringUntil 10 (firstLine 3 client).2).2 = text
    have hcount : ∀ fuel d b, formLoop boundary stack s len fuel text ⟨[], [], []⟩ = some (d, b) →
        (∃ p ∈ parts boundary stack text.length text, p.closes = true) ∧
          Grows ⟨[], [], []⟩ d ((parts boundary stack text.length text).countP Part.isField) :=
      fun fuel d b hloop => formLoop_sound hloop (Nat.le_refl _)
    constructor
    · rintro ⟨fuel, r, hparse, hinside⟩
      cases hloop : formLoop boundary stack s len fuel text ⟨[], [], []⟩ with
      | none =>
        rw [hloop] at hparse
        cases hparse
      | some found =>
        obtain ⟨d, broken⟩ := found
        obtain ⟨hcloses, hgrows⟩ := hcount fuel d broken hloop
        refine ⟨hcloses, (accesses_inside _).mp fun i hi => hinside i ?_⟩
        have hmem : i ∈ d.accesses := by
          rw [hgrows.accesses]
          exact hi
        rw [hloop] at hparse
        cases broken with
        | false =>
          cases hparse
          exact hmem
        | true =>
          cases hparse
          exact List.mem_append_left _ (List.mem_append_left _ hmem)
    · rintro ⟨hcloses, hroom⟩
      obtain ⟨enough, hends⟩ := formLoop_complete (s := s) text.length text (Nat.le_refl _) hcloses
      obtain ⟨⟨d, broken⟩, hloop⟩ := hends enough (Nat.le_refl _) ⟨[], [], []⟩
      obtain ⟨-, hgrows⟩ := hcount enough d broken hloop
      refine ⟨enough, ?_⟩
      rw [hloop]
      cases broken with
      | false =>
        refine ⟨_, rfl, fun i hi => (accesses_inside _).mpr hroom i ?_⟩
        have hmem : i ∈ d.accesses := hi
        rw [hgrows.accesses] at hmem
        exact hmem
      | true => exact ⟨_, rfl, mergeArgs_inside hgrows hroom⟩
  · simp only [hfirst, Bool.false_eq_true, if_false, false_implies, iff_true]
    exact ⟨0, _, rfl, by simp⟩

theorem parseForm_hangs : ¬ ∃ fuel r,
    parseForm [120] (fun _ => 0) ⟨none, 0, 0⟩ 0 fuel [45, 45, 120, 13, 10] = some r ∧
      ∀ i ∈ r.accesses, i < webserverMaxPostArgs := by
  rintro ⟨fuel, r, hparse, -⟩
  have hline : equals (firstLine 3 [45, 45, 120, 13, 10]).1 (dashBoundary [120]) = true := rfl
  have hrest : (readStringUntil 10 (firstLine 3 [45, 45, 120, 13, 10]).2).2 = [] := rfl
  unfold parseForm at hparse
  simp only [hline, hrest, formLoop_nil, if_true] at hparse
  cases hparse

end Esp8266.Web
