import Esp8266.Library.Delimiter
import Esp8266.Library.Machine
import Esp8266.Http.Client

/-! The headers of a request, which `addHeader` collects as text and searches as text. -/
namespace Esp8266.Http
open Esp8266.Ctype Esp8266.Delimiter Esp8266.Runs Esp8266.Substring Esp8266.Web

def isTokenChar (c : UInt8) : Bool :=
  isalnum c || [33, 35, 36, 37, 38, 39, 42, 43, 45, 46, 94, 95, 96, 124, 126].contains c

structure Header where
  name : List UInt8
  value : List UInt8
  token : name ≠ [] ∧ name.all isTokenChar = true
  unbroken : 13 ∉ value ∧ 10 ∉ value

def Header.line (h : Header) : List UInt8 := h.name ++ separator ++ h.value ++ newline

def linesOf (headers : List Header) : List UInt8 := headers.flatMap Header.line

structure HeaderCall where
  header : Header
  first : Bool
  replace : Bool

namespace HTTPClient

/-- The names that `addHeader` leaves to the code. -/
def reserved (name : List UInt8) (s : HTTPClient) : Bool :=
  equalsIgnoreCase name connectionName || equalsIgnoreCase name userAgentName ||
    equalsIgnoreCase name hostName ||
    (equalsIgnoreCase name authorizationName && s.base64Authorization ≠ [])

def addHeaderCall (call : HeaderCall) (s : HTTPClient) : HTTPClient :=
  if s.reserved call.header.name then s
  else
    let headers :=
      if call.replace then removeLine (call.header.name ++ separator) s.headers else s.headers
    { s with headers :=
        if call.first then call.header.line ++ headers else headers ++ call.header.line }

end HTTPClient

def headerCalls : Machine HTTPClient HeaderCall Unit where
  step s call := (s.addHeaderCall call, ())

def Framed (s : HTTPClient) (call : HeaderCall) : Prop :=
  ∃ headers kept, s.headers = linesOf headers ∧
    (kept = headers ∨ call.replace = true ∧ ∃ front header back,
      headers = front ++ header :: back ∧ header.name = call.header.name ∧ kept = front ++ back) ∧
    (s.addHeaderCall call).headers = linesOf
      (if s.reserved call.header.name then headers
      else if call.first then call.header :: kept else kept ++ [call.header])

def lineAt (start : Nat) (headers : List UInt8) : List UInt8 :=
  (headers.drop start).takeWhile (· ≠ 10)

/-- Where the name of the call with a colon and a blank behind it is first found, a line begins and
has no NUL in it, or the next line is the same as the rest of this one. -/
def FindsLine (s : HTTPClient) (call : HeaderCall) : Prop :=
  s.reserved call.header.name = false → call.replace = true →
    ∀ start, firstIndex (call.header.name ++ separator) (visible s.headers) = some start →
      start = 0 ∨ 0 ∉ lineAt start s.headers ∧
        ((s.headers.take start).getLast? = some 10 ∨
          lineAt start s.headers ++ [10] <+:
            s.headers.drop (start + (lineAt start s.headers).length + 1))

section Lines

theorem Header.name_char (h : Header) {c : UInt8} (hc : c ∈ h.name) : isTokenChar c = true :=
  List.all_eq_true.mp h.token.2 c hc

theorem Header.colon_not_mem (h : Header) : 58 ∉ h.name :=
  fun hc => absurd (h.name_char hc) (by decide)

theorem Header.newline_not_mem (h : Header) : 10 ∉ h.name :=
  fun hc => absurd (h.name_char hc) (by decide)

theorem separator_eq : separator = [58, 32] := rfl

theorem Header.line_eq (h : Header) : ∃ text, h.line = text ++ [10] ∧ 10 ∉ text := by
  refine ⟨h.name ++ separator ++ h.value ++ [13], by simp [Header.line, newline], ?_⟩
  have hname := h.newline_not_mem
  have hvalue := h.unbroken.2
  simp [separator_eq, hname, hvalue]

theorem linesOf_cons (h : Header) (headers : List Header) :
    linesOf (h :: headers) = h.line ++ linesOf headers := List.flatMap_cons

theorem linesOf_append (front back : List Header) :
    linesOf (front ++ back) = linesOf front ++ linesOf back := List.flatMap_append

theorem linesOf_first {headers : List Header} {text rest : List UInt8} (h : 10 ∉ text)
    (heq : linesOf headers = text ++ 10 :: rest) :
    ∃ header back, headers = header :: back ∧ header.line = text ++ [10] ∧ linesOf back = rest := by
  cases headers with
  | nil => exact absurd heq (by simp [linesOf])
  | cons header back =>
    obtain ⟨text', hline, hfeed⟩ := header.line_eq
    rw [linesOf_cons, hline, List.append_assoc] at heq
    obtain ⟨rfl, hrest⟩ := delimited_inj hfeed h heq
    exact ⟨header, back, rfl, hline, hrest⟩

theorem linesOf_split {headers : List Header} {front back : List UInt8}
    (heq : linesOf headers = front ++ back) (hend : front = [] ∨ front.getLast? = some 10) :
    ∃ first second, headers = first ++ second ∧ linesOf first = front ∧ linesOf second = back := by
  induction headers generalizing front with
  | nil =>
    obtain ⟨rfl, rfl⟩ := List.append_eq_nil_iff.mp heq.symm
    exact ⟨[], [], rfl, rfl, rfl⟩
  | cons header headers ih =>
    by_cases hnil : front = []
    · subst hnil
      exact ⟨[], header :: headers, rfl, rfl, heq⟩
    · obtain ⟨text, hline, hfeed⟩ := header.line_eq
      -- the first line is in front of the line feed at the end of `front`
      obtain ⟨more, hmore⟩ : ∃ more, front = text ++ 10 :: more := by
        have hlast := hend.resolve_left hnil
        rw [linesOf_cons, hline] at heq
        rcases List.append_eq_append_iff.mp heq with ⟨more, hfront, -⟩ | ⟨more, htext, -⟩
        · exact ⟨more, by rw [hfront]; simp⟩
        · rcases List.eq_nil_or_concat more with rfl | ⟨init, last, hinit⟩
          · exact ⟨[], by rw [← List.append_nil front, ← htext]⟩
          · exfalso
            rw [hinit, List.concat_eq_append, ← List.append_assoc] at htext
            obtain ⟨hshort, -⟩ := List.append_inj' htext rfl
            obtain ⟨start, hstart⟩ : ∃ start, front = start ++ [10] := by
              obtain ⟨start, hstart⟩ := List.getLast?_eq_some_iff.mp hlast
              exact ⟨start, hstart⟩
            apply hfeed
            rw [hshort, hstart]
            simp
      subst hmore
      have hrest : linesOf headers = more ++ back := by
        rw [linesOf_cons, hline] at heq
        simpa using heq
      have hends : more = [] ∨ more.getLast? = some 10 := by
        cases more with
        | nil => exact Or.inl rfl
        | cons c more =>
          right
          have hlast := hend.resolve_left hnil
          simpa [List.getLast?_append] using hlast
      obtain ⟨first, second, rfl, hfirst, hsecond⟩ := ih hrest hends
      exact ⟨header :: first, second, rfl, by rw [linesOf_cons, hline, hfirst]; simp, hsecond⟩

theorem linesOf_end (headers : List Header) (h : headers ≠ []) :
    (linesOf headers).getLast? = some 10 := by
  obtain ⟨init, header, rfl⟩ : ∃ init header, headers = init ++ [header] :=
    ⟨headers.dropLast, headers.getLast h, (List.dropLast_concat_getLast h).symm⟩
  obtain ⟨text, hline, -⟩ := header.line_eq
  rw [linesOf_append, linesOf_cons, hline]
  simp [linesOf]

theorem Header.name_of_prefix {h h' : Header} {rest : List UInt8}
    (hp : h.name ++ separator <+: h'.line ++ rest) : h'.name = h.name := by
  obtain ⟨more, hmore⟩ := hp
  have heq : h.name ++ 58 :: (32 :: more) =
      h'.name ++ 58 :: (32 :: (h'.value ++ newline ++ rest)) := by
    simpa [Header.line, separator_eq] using hmore
  exact (delimited_inj h.colon_not_mem h'.colon_not_mem heq).1.symm

end Lines

theorem getLast?_behind (front : List UInt8) {back : List UInt8} (h : back ≠ []) :
    (front ++ back).getLast? = back.getLast? := by
  rw [List.getLast?_append, List.getLast?_eq_some_getLast h, Option.some_or]

section Removal
variable {headers : List Header} {start : Nat}

theorem lineAt_split (h : start < (linesOf headers).length) :
    ∃ rest, (linesOf headers).drop start = lineAt start (linesOf headers) ++ 10 :: rest := by
  have hheaders : headers ≠ [] := by
    rintro rfl
    exact absurd h (Nat.not_lt_zero _)
  have hfeed : ∃ c ∈ (linesOf headers).drop start, c = 10 := by
    refine ⟨10, ?_, rfl⟩
    have hlast := linesOf_end headers hheaders
    rw [← List.take_append_drop start (linesOf headers), getLast?_behind] at hlast
    · exact List.mem_of_getLast? hlast
    · rw [ne_eq, List.drop_eq_nil_iff]
      omega
  obtain ⟨c, hc, hten⟩ := hfeed
  subst hten
  unfold lineAt
  generalize (linesOf headers).drop start = text at hc
  induction text with
  | nil => cases hc
  | cons c text ih =>
    by_cases hhere : c = 10
    · subst hhere
      exact ⟨text, rfl⟩
    · obtain ⟨rest, hrest⟩ := ih ((List.mem_cons.mp hc).resolve_left (Ne.symm hhere))
      refine ⟨rest, ?_⟩
      rw [List.takeWhile_cons_of_pos (by simpa using hhere), List.cons_append, ← hrest]

theorem strchr_line (text rest : List UInt8) (h : 10 ∉ text) :
    strchr 10 (text ++ 10 :: rest) = if 0 ∈ text then none else some text.length := by
  rw [strchr_append h, strchr, if_pos rfl, Option.map_some, Nat.zero_add]

theorem lineAt_unbroken (start : Nat) (text : List UInt8) : 10 ∉ lineAt start text := by
  intro hmem
  have hne := List.all_eq_true.mp List.all_takeWhile 10 hmem
  simp at hne

theorem removeLine_found {key text rest : List UInt8}
    (hfound : firstIndex key (visible text) = some start)
    (hdrop : text.drop start = lineAt start text ++ 10 :: rest) :
    removeLine key text = text.take start ++ if 0 ∈ lineAt start text then text else rest := by
  unfold removeLine
  simp only [hfound]
  rw [hdrop, strchr_line _ _ (lineAt_unbroken _ _)]
  by_cases hnul : 0 ∈ lineAt start text
  · simp only [if_pos hnul]
  · simp only [if_neg hnul]
    rw [Nat.add_assoc, ← List.drop_drop, hdrop, List.append_cons,
      List.drop_left' (by rw [List.length_append, List.length_singleton])]

theorem visible_prefix (text : List UInt8) : visible text <+: text := by
  obtain ⟨hidden, htext, -⟩ := visible_append text
  exact ⟨hidden, htext.symm⟩

theorem found_first {key text : List UInt8} (hfound : firstIndex key (visible text) = some start) :
    key <+: text.drop start ∧ start ≤ text.length ∧
      ∀ i, key <+: text.drop i → start ≤ i := by
  obtain ⟨⟨more, hmore⟩, hle, hfirst⟩ := firstIndex_some hfound
  obtain ⟨hidden, htext⟩ := visible_prefix text
  have hlength := congrArg List.length htext
  have hkey := congrArg List.length hmore
  rw [List.length_append] at hlength hkey
  rw [List.length_drop] at hkey
  refine ⟨⟨more ++ hidden, ?_⟩, by omega, fun i hi => ?_⟩
  · rw [← List.append_assoc, hmore, ← List.drop_append_of_le_length hle, htext]
  · -- an occurrence further in front would be visible as well
    apply Nat.le_of_not_lt
    intro hless
    apply hfirst i hless
    rw [← htext, List.drop_append_of_le_length (by omega)] at hi
    exact List.prefix_of_prefix_length_le hi (List.prefix_append _ _) (by
      rw [List.length_drop]
      omega)

def Without (headers : List Header) (name text : List UInt8) : Prop :=
  ∃ kept, (kept = headers ∨ ∃ front header back,
    headers = front ++ header :: back ∧ header.name = name ∧ kept = front ++ back) ∧
    text = linesOf kept

theorem without_at {front line back : List UInt8} {header : Header}
    (heq : linesOf headers = front ++ (line ++ 10 :: back)) (hline : 10 ∉ line)
    (hend : front = [] ∨ front.getLast? = some 10)
    (hname : header.name ++ separator <+: line ++ 10 :: back) :
    Without headers header.name (front ++ back) := by
  obtain ⟨first, second, rfl, hfirst, hsecond⟩ := linesOf_split heq hend
  obtain ⟨found, rest, rfl, hfound, hrest⟩ := linesOf_first hline hsecond
  refine ⟨first ++ rest, Or.inr ⟨first, found, rest, rfl, ?_, rfl⟩, ?_⟩
  · rw [List.append_cons, ← hfound] at hname
    exact Header.name_of_prefix hname
  · rw [linesOf_append, hfirst, hrest]

section Found
variable {before line rest : List UInt8}

theorem without_next {header : Header} (htext : linesOf headers = before ++ (line ++ 10 :: rest))
    (hunbroken : 10 ∉ line) (hkey : header.name ++ separator <+: line ++ 10 :: rest)
    (hsame : line ++ [10] <+: rest) : Without headers header.name (before ++ rest) := by
  obtain ⟨more, rfl⟩ := hsame
  have hnext : linesOf headers = before ++ (line ++ [10]) ++ (line ++ 10 :: more) := by
    rw [htext]
    simp
  have hshort : header.name ++ separator <+: line := by
    obtain ⟨tail, htail⟩ := hkey
    rcases List.append_eq_append_iff.mp htail with ⟨x, hx, -⟩ | ⟨x, hx, hx'⟩
    · exact ⟨x, hx.symm⟩
    · cases x with
      | nil => exact ⟨[], by rw [hx, List.append_nil, List.append_nil]⟩
      | cons c x =>
        obtain ⟨rfl, -⟩ := List.cons.inj hx'
        have hmem : 10 ∈ header.name ++ separator := by
          rw [hx]
          simp
        simp [separator_eq, header.newline_not_mem] at hmem
  have hwithout := without_at hnext hunbroken (Or.inr (by simp))
    (hshort.trans (List.prefix_append _ _))
  simpa using hwithout

theorem same_of_gone {front back : List Header} {gone : Header}
    (htext : linesOf (front ++ gone :: back) = before ++ (line ++ 10 :: rest))
    (hunbroken : 10 ∉ line) (hlines : before ++ rest = linesOf (front ++ back))
    (hbefore : before.length ≤ (linesOf front).length) (hne : before ≠ []) :
    before.getLast? = some 10 ∨ line ++ [10] <+: rest := by
  rw [linesOf_append, linesOf_cons] at htext
  rw [linesOf_append] at hlines
  obtain ⟨text, hgone, -⟩ := gone.line_eq
  obtain ⟨middle, hmiddle⟩ : ∃ middle, linesOf front = before ++ middle := by
    rcases List.append_eq_append_iff.mp htext with ⟨more, hmore, -⟩ | ⟨more, hmore, -⟩
    · have hlength := congrArg List.length hmore
      rw [List.length_append] at hlength
      have hnil : more = [] := List.eq_nil_of_length_eq_zero (by omega)
      exact ⟨[], by rw [hmore, hnil, List.append_nil, List.append_nil]⟩
    · exact ⟨more, hmore⟩
  have hfront : front ≠ [] := by
    rintro rfl
    exact hne (List.append_eq_nil_iff.mp hmiddle.symm).1
  have hlast := linesOf_end front hfront
  by_cases hnil : middle = []
  · left
    rwa [hmiddle, hnil, List.append_nil] at hlast
  · right
    rw [hmiddle, getLast?_behind _ hnil] at hlast
    obtain ⟨init, hinit⟩ := List.getLast?_eq_some_iff.mp hlast
    rw [hmiddle, List.append_assoc] at htext hlines
    have hrest := List.append_cancel_left hlines
    have hboth := List.append_cancel_left htext
    rw [hrest, hgone] at hboth
    have hsame : middle ++ (text ++ [10]) = line ++ [10] ++ middle := by
      have hcancel : middle ++ (text ++ [10]) ++ linesOf back =
          line ++ [10] ++ middle ++ linesOf back := by
        simpa using hboth
      exact List.append_cancel_right hcancel
    rw [hrest]
    rcases List.append_eq_append_iff.mp hsame with ⟨more, hmore, -⟩ | ⟨more, hmore, -⟩
    · -- the rest of the line would have a line feed in the middle
      rcases List.eq_nil_or_concat more with rfl | ⟨most, last, rfl⟩
      · rw [hmore, List.append_nil]
        exact List.prefix_append _ _
      · exfalso
        rw [List.concat_eq_append, ← List.append_assoc] at hmore
        obtain ⟨hinner, -⟩ := List.append_inj' hmore rfl
        apply hunbroken
        rw [hinner, hinit]
        simp
    · rw [hmore, List.append_assoc]
      exact List.prefix_append _ _

end Found

theorem removeLine_iff (header : Header) :
    Without headers header.name (removeLine (header.name ++ separator) (linesOf headers)) ↔
      ∀ start, firstIndex (header.name ++ separator) (visible (linesOf headers)) = some start →
        start = 0 ∨ 0 ∉ lineAt start (linesOf headers) ∧
          (((linesOf headers).take start).getLast? = some 10 ∨
            lineAt start (linesOf headers) ++ [10] <+: (linesOf headers).drop
              (start + (lineAt start (linesOf headers)).length + 1)) := by
  cases hfound : firstIndex (header.name ++ separator) (visible (linesOf headers)) with
  | none =>
    have hsame : removeLine (header.name ++ separator) (linesOf headers) = linesOf headers := by
      unfold removeLine
      rw [hfound]
    rw [hsame]
    exact iff_of_true ⟨headers, Or.inl rfl, rfl⟩ nofun
  | some start =>
    obtain ⟨hkey, hle, hfirst⟩ := found_first hfound
    have hinside : start < (linesOf headers).length := by
      have hlength := hkey.length_le
      rw [List.length_append, List.length_drop, separator_eq] at hlength
      simp only [List.length_cons, List.length_nil] at hlength
      omega
    obtain ⟨rest, hdrop⟩ := lineAt_split hinside
    have hunbroken := lineAt_unbroken start (linesOf headers)
    have htext : linesOf headers = (linesOf headers).take start ++
        (lineAt start (linesOf headers) ++ 10 :: rest) := by
      rw [← hdrop, List.take_append_drop]
    have hbehind : (linesOf headers).drop (start + (lineAt start (linesOf headers)).length + 1) =
        rest := by
      rw [Nat.add_assoc, ← List.drop_drop, hdrop, List.append_cons,
        List.drop_left' (by rw [List.length_append, List.length_singleton])]
    have htake : ((linesOf headers).take start).length = start := List.length_take_of_le hle
    simp only [Option.some.injEq, forall_eq']
    rw [removeLine_found hfound hdrop, hbehind]
    rw [hdrop] at hkey
    generalize (linesOf headers).take start = before at *
    generalize lineAt start (linesOf headers) = line at *
    constructor
    · rintro ⟨kept, hkept, hlines⟩
      by_cases hzero : start = 0
      · exact Or.inl hzero
      · right
        have hlong : (linesOf kept).length ≤ (linesOf headers).length := by
          rcases hkept with rfl | ⟨front, gone, back, rfl, -, rfl⟩
          · exact Nat.le_refl _
          · simp only [linesOf_append, linesOf_cons, List.length_append]
            omega
        have hnul : 0 ∉ line := by
          intro hnul
          rw [if_pos hnul] at hlines
          rw [← hlines, List.length_append] at hlong
          omega
        refine ⟨hnul, ?_⟩
        rw [if_neg hnul] at hlines
        rcases hkept with rfl | ⟨front, gone, back, rfl, hname, rfl⟩
        · have hlength := congrArg List.length htext
          rw [← hlines] at hlength
          simp only [List.length_append, List.length_cons] at hlength
          omega
        · have hat : header.name ++ separator <+:
              (linesOf (front ++ gone :: back)).drop (linesOf front).length := by
            rw [linesOf_append, List.drop_left, linesOf_cons, Header.line, ← hname,
              List.append_assoc, List.append_assoc]
            exact List.prefix_append _ _
          apply same_of_gone htext hunbroken hlines
          · rw [htake]
            exact hfirst _ hat
          · rintro rfl
            exact hzero htake.symm
    · rintro (rfl | ⟨hnul, hend | hsame⟩)
      · obtain rfl : before = [] := List.eq_nil_of_length_eq_zero htake
        by_cases hnul : 0 ∈ line
        · rw [if_pos hnul]
          exact ⟨headers, Or.inl rfl, rfl⟩
        · rw [if_neg hnul]
          exact without_at htext hunbroken (Or.inl rfl) hkey
      · rw [if_neg hnul]
        exact without_at htext hunbroken (Or.inr hend) hkey
      · rw [if_neg hnul]
        exact without_next htext hunbroken hkey hsame

end Removal

section Calls
variable {s : HTTPClient} {call : HeaderCall}

theorem addHeaderCall_reserved (h : s.reserved call.header.name = true) :
    s.addHeaderCall call = s := if_pos h

theorem addHeaderCall_headers (h : s.reserved call.header.name = false) (kept : List UInt8)
    (hkept : kept = if call.replace then removeLine (call.header.name ++ separator) s.headers
      else s.headers) :
    (s.addHeaderCall call).headers =
      if call.first then call.header.line ++ kept else kept ++ call.header.line := by
  unfold HTTPClient.addHeaderCall
  rw [h, hkept]
  rfl

theorem linesOf_placed (call : HeaderCall) (kept : List Header) :
    linesOf (if call.first then call.header :: kept else kept ++ [call.header]) =
      if call.first then call.header.line ++ linesOf kept
      else linesOf kept ++ call.header.line := by
  split
  · exact linesOf_cons _ _
  · rw [linesOf_append, linesOf_cons]
    simp [linesOf]

theorem framed_iff {headers : List Header} (hs : s.headers = linesOf headers) :
    Framed s call ↔ FindsLine s call := by
  unfold FindsLine
  cases hreserved : s.reserved call.header.name with
  | true =>
    refine iff_of_true ⟨headers, headers, hs, Or.inl rfl, ?_⟩ nofun
    rw [addHeaderCall_reserved hreserved, hreserved]
    exact hs
  | false =>
    cases hreplace : call.replace with
    | false =>
      refine iff_of_true ⟨headers, headers, hs, Or.inl rfl, ?_⟩ nofun
      rw [addHeaderCall_headers hreserved s.headers (by rw [hreplace]; rfl), hreserved, hs]
      exact (linesOf_placed call headers).symm
    | true =>
      have hadded := addHeaderCall_headers hreserved
        (removeLine (call.header.name ++ separator) s.headers) (by rw [hreplace]; rfl)
      constructor
      · rintro ⟨headers, kept, hs, hkept, hlines⟩ - -
        rw [hs]
        apply (removeLine_iff call.header).mp
        refine ⟨kept, hkept.imp_right And.right, ?_⟩
        rw [hreserved, hadded, hs] at hlines
        replace hlines := hlines.trans (linesOf_placed call kept)
        split at hlines
        · exact List.append_cancel_left hlines
        · exact List.append_cancel_right hlines
      · intro hfinds
        have hremoves := hfinds rfl rfl
        rw [hs] at hremoves
        obtain ⟨kept, hkept, hlines⟩ := (removeLine_iff call.header).mpr hremoves
        refine ⟨headers, kept, hs, hkept.imp_right (And.intro hreplace), ?_⟩
        rw [hadded, hreserved, hs, hlines]
        exact (linesOf_placed call kept).symm

theorem Framed.next (h : Framed s call) :
    ∃ headers, (headerCalls.step s call).1.headers = linesOf headers := by
  obtain ⟨headers, kept, -, -, hlines⟩ := h
  exact ⟨_, hlines⟩

theorem along_framed_iff {headers : List Header} (hs : s.headers = linesOf headers)
    (calls : List HeaderCall) :
    headerCalls.Along Framed s calls ∧
        (∃ headers, (headerCalls.run s calls).1.headers = linesOf headers) ↔
      headerCalls.Along FindsLine s calls := by
  induction calls generalizing s headers with
  | nil => exact iff_of_true ⟨trivial, headers, hs⟩ trivial
  | cons call calls ih =>
    constructor
    · rintro ⟨⟨hfirst, hrest⟩, hlast⟩
      obtain ⟨next, hnext⟩ := hfirst.next
      exact ⟨(framed_iff hs).mp hfirst, (ih hnext).mp ⟨hrest, hlast⟩⟩
    · rintro ⟨hfirst, hrest⟩
      have hframed := (framed_iff hs).mpr hfirst
      obtain ⟨next, hnext⟩ := hframed.next
      obtain ⟨hafter, hlast⟩ := (ih hnext).mpr hrest
      exact ⟨⟨hframed, hafter⟩, hlast⟩

end Calls

/-- The calls after `begin` leave the other headers alone, in every state, if and only if each finds
a line where it finds its name. -/
theorem request_headers_framed (s : HTTPClient) (calls : List HeaderCall) :
    headerCalls.Along Framed s.clear calls ∧
        (∃ headers, (headerCalls.run s.clear calls).1.headers = linesOf headers) ↔
      headerCalls.Along FindsLine s.clear calls :=
  @along_framed_iff s.clear [] rfl calls

def longerName : Header :=
  ⟨ascii ['X', '-', 'N', 'a', 'm', 'e'], [49], by decide, by decide⟩

def shorterName : Header := ⟨ascii ['N', 'a', 'm', 'e'], [50], by decide, by decide⟩

theorem other_header_replaced :
    (headerCalls.run HTTPClient.new.clear
        [⟨longerName, false, true⟩, ⟨shorterName, false, true⟩]).1.headers =
      ascii ['X', '-', 'N', 'a', 'm', 'e', ':', ' ', '2'] ++ newline ∧
    ¬ headerCalls.Along Framed HTTPClient.new.clear
      [⟨longerName, false, true⟩, ⟨shorterName, false, true⟩] := by
  refine ⟨by decide, ?_⟩
  rintro ⟨-, hframed, -⟩
  have hs : (headerCalls.step HTTPClient.new.clear ⟨longerName, false, true⟩).1.headers =
      linesOf [longerName] := by decide
  rcases (framed_iff hs).mp hframed (by decide) rfl 2 (by decide) with hzero | ⟨-, hend | hsame⟩
  · exact absurd hzero (by decide)
  · exact absurd hend (by decide)
  · exact absurd hsame (by decide)

end Esp8266.Http
