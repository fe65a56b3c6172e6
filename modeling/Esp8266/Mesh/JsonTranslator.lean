import Esp8266.Library.Delimiter
import Esp8266.Web.Text

/-! The JSON of the mesh, which is written by hand, and read by a search for the quoted name of a
value. -/
namespace Esp8266.Mesh
open Esp8266.Delimiter Esp8266.Substring Esp8266.Web

namespace JsonTranslator

def mark (valueIdentifier : List UInt8) : List UInt8 := 34 :: valueIdentifier ++ [34, 58]

def getStartIndex (jsonString valueIdentifier : List UInt8) (searchStartIndex : Nat) : Int :=
  let startIndex := indexOfString jsonString (mark valueIdentifier) searchStartIndex
  if startIndex < 0 then startIndex else startIndex + (valueIdentifier.length + 3)

/-- The loop of `getEndIndex` behind an opening brace: how far the closing one is. -/
def braceLoop : List UInt8 → Nat → Bool → Option Nat
  | [], _, _ => none
  | c :: rest, depth, withinString =>
    if c = 34 then (braceLoop rest depth !withinString).map (· + 1)
    else if withinString then (braceLoop rest depth withinString).map (· + 1)
    else if c = 123 then (braceLoop rest (depth + 1) withinString).map (· + 1)
    else if c = 125 then
      if depth = 1 then some 0 else (braceLoop rest (depth - 1) withinString).map (· + 1)
    else (braceLoop rest depth withinString).map (· + 1)

def getEndIndex (jsonString : List UInt8) (searchStartIndex : Nat) : Int :=
  if charAt jsonString searchStartIndex = 34 then indexOf jsonString 34 (searchStartIndex + 1)
  else if charAt jsonString searchStartIndex = 123 then
    match braceLoop (jsonString.drop (searchStartIndex + 1)) 1 false with
    | none => -1
    | some i => searchStartIndex + 1 + i
  else -1

def member (element : List UInt8 × List UInt8) : List UInt8 :=
  34 :: element.1 ++ [34, 58] ++
    (if element.2.head? = some 123 then element.2 else 34 :: element.2 ++ [34]) ++ [44]

def encode (identifiersAndValues : List (List UInt8 × List UInt8)) : List UInt8 :=
  (123 :: identifiersAndValues.flatMap member).dropLast ++ [125]

def decode (jsonString valueIdentifier : List UInt8) : Option (List UInt8) :=
  let startIndex := getStartIndex jsonString valueIdentifier 0
  if startIndex < 0 then none
  else
    let startIndex := startIndex.toNat
    let endIndex := getEndIndex jsonString startIndex
    if endIndex < 0 then none
    else
      let endIndex := endIndex.toNat
      if charAt jsonString startIndex = 34 then
        some (substring jsonString (startIndex + 1) endIndex)
      else if charAt jsonString startIndex = 123 then
        some (substring jsonString startIndex (endIndex + 1))
      else none

/-- What `decode` makes of the text behind the mark. -/
def valueAt : List UInt8 → Option (List UInt8)
  | [] => none
  | c :: rest =>
    if c = 34 then if 34 ∈ rest then some (rest.takeWhile (· ≠ 34)) else none
    else if c = 123 then (braceLoop rest 1 false).map fun i => c :: rest.take (i + 1)
    else none

theorem decode_from {text : List UInt8} (start : Nat) (hzero : 0 ∉ text.drop start) :
    (if getEndIndex text start < 0 then none
      else if charAt text start = 34 then
        some (substring text (start + 1) (getEndIndex text start).toNat)
      else if charAt text start = 123 then
        some (substring text start ((getEndIndex text start).toNat + 1))
      else none) = valueAt (text.drop start) := by
  have hhead : charAt text start = (text.drop start).headD 0 := by
    rw [charAt, List.getD_eq_getElem?_getD, ← List.head?_drop, List.headD_eq_head?_getD]
  have hnext : text.drop (start + 1) = (text.drop start).tail := List.tail_drop.symm
  unfold getEndIndex
  rw [hnext]
  cases hrest : text.drop start with
  | nil =>
    rw [hhead, hrest]
    rfl
  | cons c rest =>
    have hchar : charAt text start = c := by
      rw [hhead, hrest]
      rfl
    rw [hrest] at hnext hzero
    rw [List.tail_cons] at hnext
    rw [List.mem_cons, not_or] at hzero
    rw [hchar, List.tail_cons, valueAt]
    by_cases hquote : c = 34
    · simp only [if_pos hquote]
      unfold indexOf
      rw [hnext, strchr_mem hzero.2]
      by_cases hend : start + 1 ≥ text.length
      · have hnil : rest = [] := by
          rw [← hnext]
          exact List.drop_of_length_le hend
        rw [if_pos hend, hnil]
        rfl
      · rw [if_neg hend]
        by_cases hmem : 34 ∈ rest
        · simp only [if_pos hmem]
          generalize hn : (rest.takeWhile (· ≠ 34)).length = n
          have hnonneg : ¬ ((start + 1 : Nat) : Int) + (n : Int) < 0 := by omega
          have hstop : (((start + 1 : Nat) : Int) + (n : Int)).toNat = start + 1 + n := by omega
          rw [if_neg hnonneg, hstop, substring_eq _ (Nat.le_add_right _ _), hnext,
            Nat.add_sub_cancel_left, ← hn]
          exact congrArg some (List.prefix_iff_eq_take.mp (List.takeWhile_prefix _)).symm
        · simp only [if_neg hmem]
          rfl
    · simp only [if_neg hquote]
      by_cases hbrace : c = 123
      · simp only [if_pos hbrace]
        cases braceLoop rest 1 false with
        | none => rfl
        | some i =>
          have hstop : ((start : Int) + 1 + (i : Int)).toNat = start + 1 + i := by omega
          have hnonneg : ¬ ((start : Int) + 1 + (i : Int)) < 0 := by omega
          simp only [if_neg hnonneg, hstop, Option.map_some]
          rw [substring_eq _ (by omega), hrest, show start + 1 + i + 1 - start = i + 1 + 1 by omega,
            List.take_succ_cons]
      · simp only [if_neg hbrace]
        rfl

theorem decode_eq {text identifier : List UInt8} (htext : 0 ∉ text) (hid : 0 ∉ identifier) :
    decode text identifier = (behind (mark identifier) text).bind valueAt := by
  have hmark : visible (mark identifier) = mark identifier := by
    apply visible_eq
    intro c hc
    rintro rfl
    simp [mark, hid] at hc
  have hlength : (mark identifier).length = identifier.length + 3 := by
    simp [mark]
  have hvisible : visible text = text := visible_eq fun c hc h => htext (h ▸ hc)
  unfold decode getStartIndex indexOfString behind
  simp only [List.drop_zero, hmark, hvisible, hlength]
  cases text with
  | nil => rfl
  | cons first tail =>
    generalize htail : first :: tail = text at *
    have hpos : ¬ 0 ≥ text.length := by
      rw [← htail]
      exact Nat.not_succ_le_zero _
    rw [if_neg hpos]
    cases hfirst : firstIndex (mark identifier) text with
    | none => rfl
    | some i =>
      have hle := (firstIndex_some hfirst).2.1
      have hstart : ((0 : Nat) + (i : Int) + (identifier.length + 3) : Int) =
          ((i + (identifier.length + 3) : Nat) : Int) := by omega
      have hnonneg : ¬ ((0 : Nat) + (i : Int) : Int) < 0 := by omega
      simp only [if_neg hnonneg, hstart, Option.map_some, Option.bind_some, Int.toNat_natCast]
      rw [if_neg (by omega)]
      generalize i + (identifier.length + 3) = start
      exact decode_from start (fun hmem => htext (List.mem_of_mem_drop hmem))

section Strings
variable {identifier : List UInt8}

def strings : List (List UInt8 × List UInt8) → List UInt8 → List UInt8
  | [], last => last
  | (before, text) :: items, last => before ++ 34 :: (text ++ 34 :: strings items last)

structure Searchable (identifier : List UInt8) (items : List (List UInt8 × List UInt8))
    (last : List UInt8) : Prop where
  name : 34 ∉ identifier
  before : ∀ item ∈ items, 34 ∉ item.1
  text : ∀ item ∈ items, 34 ∉ item.2
  distinct : ∀ item ∈ items, item.1 ≠ identifier
  last : 34 ∉ last

inductive Named (identifier : List UInt8) (after : List (List UInt8 × List UInt8)) :
    List (List UInt8 × List UInt8) → Prop
  | here (before : List UInt8) (h : after.head?.any (·.1.head? = some 58)) :
    Named identifier after ((before, identifier) :: after)
  | later {before text before' text' : List UInt8} {items : List (List UInt8 × List UInt8)}
    (h : text ≠ identifier ∨ before'.head? ≠ some 58)
    (rest : Named identifier after ((before', text') :: items)) :
    Named identifier after ((before, text) :: (before', text') :: items)

theorem Searchable.tail {item : List UInt8 × List UInt8} {items : List (List UInt8 × List UInt8)}
    {last : List UInt8} (h : Searchable identifier (item :: items) last) :
    Searchable identifier items last where
  name := h.name
  before := fun x hx => h.before x (List.mem_cons_of_mem _ hx)
  text := fun x hx => h.text x (List.mem_cons_of_mem _ hx)
  distinct := fun x hx => h.distinct x (List.mem_cons_of_mem _ hx)
  last := h.last

theorem prefix_quoted {chunk rest more : List UInt8} (hid : 34 ∉ identifier) (hchunk : 34 ∉ chunk) :
    identifier ++ 34 :: more <+: chunk ++ 34 :: rest ↔ identifier = chunk ∧ more <+: rest := by
  constructor
  · rintro ⟨after, hafter⟩
    rw [List.append_assoc, List.cons_append] at hafter
    obtain ⟨rfl, hmore⟩ := delimited_inj hid hchunk hafter
    exact ⟨rfl, after, hmore⟩
  · rintro ⟨rfl, after, rfl⟩
    exact ⟨after, by rw [List.append_assoc, List.cons_append]⟩

theorem behind_chunk {chunk : List UInt8} (rest : List UInt8) (hchunk : 34 ∉ chunk) :
    behind (mark identifier) (chunk ++ 34 :: rest) =
      if identifier ++ [34, 58] <+: rest then some (rest.drop (identifier.length + 2))
      else behind (mark identifier) rest := by
  have hlength : (mark identifier).length = identifier.length + 3 := by
    simp [mark]
  have hskip : ∀ i, i < chunk.length → ¬ mark identifier <+: (chunk ++ 34 :: rest).drop i := by
    intro i hi
    rw [List.drop_append_of_le_length (Nat.le_of_lt hi), List.drop_eq_getElem_cons hi, mark,
      List.cons_append, List.cons_append, List.cons_prefix_cons]
    rintro ⟨hquote, -⟩
    exact hchunk (hquote ▸ List.getElem_mem hi)
  unfold behind
  rw [firstIndex_behind hskip]
  by_cases hhere : identifier ++ [34, 58] <+: rest
  · have hmark : mark identifier <+: 34 :: rest := by
      rw [mark, List.cons_append, List.cons_prefix_cons]
      exact ⟨rfl, hhere⟩
    rw [firstIndex_here hmark, if_pos hhere, Option.map_some, Option.map_some, hlength,
      Nat.zero_add, ← List.drop_drop, List.drop_left]
    rfl
  · have hmark : ¬ mark identifier <+: 34 :: rest := by
      rw [mark, List.cons_append, List.cons_prefix_cons]
      exact fun h => hhere h.2
    rw [firstIndex, if_neg hmark, if_neg hhere]
    cases firstIndex (mark identifier) rest with
    | none => rfl
    | some i =>
      have hindex : i + 1 + chunk.length + (identifier.length + 3) =
          chunk.length + (i + (identifier.length + 3) + 1) := by omega
      simp only [Option.map_some, hlength, hindex]
      rw [← List.drop_drop, List.drop_left, List.drop_succ_cons]

theorem behind_strings {before text last : List UInt8} {items : List (List UInt8 × List UInt8)}
    (h : Searchable identifier ((before, text) :: items) last) :
    behind (mark identifier) (strings ((before, text) :: items) last) =
      if identifier = text ∧ [58] <+: strings items last then some ((strings items last).drop 1)
      else behind (mark identifier) (strings items last) := by
  have hbefore : 34 ∉ before := h.before (before, text) List.mem_cons_self
  have htext : 34 ∉ text := h.text (before, text) List.mem_cons_self
  have hopen : identifier ++ [34, 58] <+: text ++ 34 :: strings items last ↔
      identifier = text ∧ [58] <+: strings items last := prefix_quoted h.name htext
  rw [strings, behind_chunk _ hbefore]
  by_cases hhere : identifier = text ∧ [58] <+: strings items last
  · rw [if_pos (hopen.mpr hhere), if_pos hhere, hhere.1, ← List.drop_drop, List.drop_left]
    rfl
  · rw [if_neg (fun h => hhere (hopen.mp h)), if_neg hhere, behind_chunk _ htext]
    have hnot : ¬ identifier ++ [34, 58] <+: strings items last := by
      intro hleads
      cases items with
      | nil =>
        have hmem : 34 ∈ identifier ++ [34, 58] := by simp
        exact h.last (hleads.subset hmem)
      | cons item items =>
        have hitem : item ∈ (before, text) :: item :: items := by simp
        obtain ⟨hsame, -⟩ := (prefix_quoted h.name (h.before item hitem)).mp hleads
        exact h.distinct item hitem hsame.symm
    rw [if_neg hnot]

theorem colon_strings {before text last : List UInt8} {items : List (List UInt8 × List UInt8)} :
    [58] <+: strings ((before, text) :: items) last ↔ before.head? = some 58 := by
  cases before with
  | nil =>
    show [58] <+: 34 :: _ ↔ _
    simp [List.cons_prefix_cons]
  | cons c before =>
    show [58] <+: c :: _ ↔ _
    simp [List.cons_prefix_cons, eq_comm]

theorem behind_named {last : List UInt8} {after items : List (List UInt8 × List UInt8)}
    (hnamed : Named identifier after items) (h : Searchable identifier items last) :
    behind (mark identifier) (strings items last) = some ((strings after last).drop 1) := by
  induction hnamed with
  | here before hafter =>
    have hcolon : [58] <+: strings after last := by
      cases after with
      | nil => cases hafter
      | cons item after => exact colon_strings.mpr (by simpa using hafter)
    rw [behind_strings h, if_pos ⟨rfl, hcolon⟩]
  | later hnot _ ih =>
    rw [behind_strings h, if_neg, ih h.tail]
    rintro ⟨hname, hcolon⟩
    cases hnot with
    | inl hname' => exact hname' hname.symm
    | inr hcolon' => exact hcolon' (colon_strings.mp hcolon)

theorem valueAt_quoted {value : List UInt8} (hvalue : 34 ∉ value) (rest : List UInt8) :
    valueAt (34 :: (value ++ 34 :: rest)) = some value := by
  have htake : (value ++ 34 :: rest).takeWhile (· ≠ 34) = value := by
    rw [List.takeWhile_append_of_pos]
    · simp
    · intro c hc
      simpa using fun h : c = 34 => hvalue (h ▸ hc)
  rw [valueAt, if_pos rfl, if_pos (by simp), htake]

theorem braceLoop_text {text : List UInt8} (htext : 34 ∉ text) (rest : List UInt8) (depth : Nat) :
    braceLoop (34 :: (text ++ 34 :: rest)) depth false =
      (braceLoop rest depth false).map (· + (text.length + 2)) := by
  have hinside : braceLoop (text ++ 34 :: rest) depth true =
      (braceLoop rest depth false).map (· + (text.length + 1)) := by
    induction text with
    | nil => rfl
    | cons c text ih =>
      rw [List.mem_cons, not_or] at htext
      rw [List.cons_append, braceLoop, if_neg (Ne.symm htext.1), if_pos rfl, ih htext.2,
        Option.map_map]
      rfl
  rw [braceLoop, if_pos rfl, Bool.not_false, hinside, Option.map_map]
  rfl

end Strings

def items : List UInt8 → List (List UInt8 × List UInt8) → List (List UInt8 × List UInt8)
  | _, [] => []
  | before, field :: fields => (before, field.1) :: ([58], field.2) :: items [44] fields

def Plain (fields : List (List UInt8 × List UInt8)) : Prop :=
  ∀ field ∈ fields, field.2.head? ≠ some 123

theorem strings_append (fields : List (List UInt8 × List UInt8)) (last more : List UInt8) :
    strings fields last ++ more = strings fields (last ++ more) := by
  induction fields with
  | nil => rfl
  | cons field fields ih => simp [strings, ih]

theorem members_strings (before : List UInt8) {fields : List (List UInt8 × List UInt8)}
    (hfields : fields ≠ []) (hplain : Plain fields) (last : List UInt8) :
    (before ++ fields.flatMap member).dropLast ++ last = strings (items before fields) last := by
  induction fields generalizing before with
  | nil => exact absurd rfl hfields
  | cons field fields ih =>
    have hmember : member field = 34 :: (field.1 ++ 34 :: 58 :: 34 :: (field.2 ++ [34])) ++ [44] := by
      rw [member, if_neg (hplain field List.mem_cons_self)]
      simp
    have hsplit : (before ++ (field :: fields).flatMap member).dropLast =
        before ++ 34 :: (field.1 ++ 34 :: 58 :: 34 :: (field.2 ++ [34])) ++
          ([44] ++ fields.flatMap member).dropLast := by
      rw [List.flatMap_cons, hmember, List.append_assoc, ← List.append_assoc before,
        List.dropLast_append_of_ne_nil (by simp)]
    rw [hsplit, items, strings, strings]
    by_cases hlast : fields = []
    · rw [hlast]
      simp [items, strings]
    · have hrest := ih [44] hlast fun x hx => hplain x (List.mem_cons_of_mem field hx)
      rw [← hrest]
      simp

theorem encode_strings {fields : List (List UInt8 × List UInt8)} (hfields : fields ≠ [])
    (hplain : Plain fields) : encode fields = strings (items [123] fields) [125] :=
  members_strings [123] hfields hplain [125]

theorem named_of_lookup {identifier value before : List UInt8}
    {fields : List (List UInt8 × List UInt8)} (h : fields.lookup identifier = some value) :
    ∃ after, Named identifier (([58], value) :: after) (items before fields) := by
  induction fields generalizing before with
  | nil => cases h
  | cons field fields ih =>
    rw [List.lookup_cons] at h
    by_cases hname : identifier = field.1
    · rw [beq_iff_eq.mpr hname] at h
      cases h
      rw [items, ← hname]
      exact ⟨_, .here before rfl⟩
    · rw [beq_eq_false_iff_ne.mpr hname] at h
      obtain ⟨after, hafter⟩ := @ih [44] h
      cases fields with
      | nil => cases h
      | cons next fields =>
        exact ⟨after, .later (.inl (Ne.symm hname)) (.later (.inr (by decide)) hafter)⟩

theorem mem_strings {c : UInt8} {last : List UInt8} {items : List (List UInt8 × List UInt8)}
    (hc : c ∈ strings items last) :
    c = 34 ∨ c ∈ last ∨ ∃ item ∈ items, c ∈ item.1 ∨ c ∈ item.2 := by
  induction items with
  | nil => exact .inr (.inl hc)
  | cons item items ih =>
    simp only [strings, List.mem_append, List.mem_cons] at hc
    rcases hc with hbefore | hquote | htext | hquote | hrest
    · exact .inr (.inr ⟨item, List.mem_cons_self, .inl hbefore⟩)
    · exact .inl hquote
    · exact .inr (.inr ⟨item, List.mem_cons_self, .inr htext⟩)
    · exact .inl hquote
    · rcases ih hrest with hquote | hlast | ⟨other, hother, hmem⟩
      · exact .inl hquote
      · exact .inr (.inl hlast)
      · exact .inr (.inr ⟨other, List.mem_cons_of_mem _ hother, hmem⟩)

theorem mem_items {before : List UInt8} {fields : List (List UInt8 × List UInt8)}
    {item : List UInt8 × List UInt8} (h : item ∈ items before fields) :
    (item.1 = before ∨ item.1 = [58] ∨ item.1 = [44]) ∧
      ∃ field ∈ fields, item.2 = field.1 ∨ item.2 = field.2 := by
  induction fields generalizing before with
  | nil => cases h
  | cons field fields ih =>
    rw [items, List.mem_cons, List.mem_cons] at h
    rcases h with rfl | rfl | hrest
    · exact ⟨.inl rfl, field, List.mem_cons_self, .inl rfl⟩
    · exact ⟨.inr (.inl rfl), field, List.mem_cons_self, .inr rfl⟩
    · obtain ⟨hbefore, other, hother, htext⟩ := ih hrest
      refine ⟨?_, other, List.mem_cons_of_mem _ hother, htext⟩
      rcases hbefore with hcomma | hcolon | hcomma
      · exact .inr (.inr hcomma)
      · exact .inr (.inl hcolon)
      · exact .inr (.inr hcomma)

theorem decode_named {identifier value last : List UInt8}
    {all after : List (List UInt8 × List UInt8)} (hnamed : Named identifier (([58], value) :: after) all)
    (h : Searchable identifier all last) (hvalue : 34 ∉ value) (hid : 0 ∉ identifier)
    (hzero : 0 ∉ strings all last) : decode (strings all last) identifier = some value := by
  rw [decode_eq hzero hid, behind_named hnamed h, Option.bind_some]
  exact valueAt_quoted hvalue _

end JsonTranslator
end Esp8266.Mesh
