import Esp8266.Ssdp.StartLine

/-! Which searches are answered. The end of the headers asks for an answer whatever they say, and a
value can be taken for the name of its header. -/
namespace Esp8266.Ssdp
open Esp8266.CString Esp8266.Ctype

structure Line where
  name : List UInt8
  value : List UInt8
  name_ne : name ≠ []
  name_short : name.length < 64
  name_token : ∀ c ∈ name, c ≠ 13 ∧ c ≠ 10 ∧ c ≠ 32 ∧ c ≠ 58
  value_ne : value ≠ []
  value_short : value.length < 64
  value_text : ∀ c ∈ value, c ≠ 13 ∧ c ≠ 10

def Line.bytes (l : Line) : List UInt8 := l.name ++ 58 :: 32 :: (l.value ++ [13, 10])

def stName : List UInt8 := [83, 84]

structure Search where
  lines : List Line
  once : (lines.filter (·.name = stName)).length ≤ 1

def startLine : List UInt8 := [32, 42, 32, 72, 84, 84, 80, 47, 49, 46, 49, 13, 10]

def Search.datagram (s : Search) : List UInt8 :=
  mSearch ++ startLine ++ ((s.lines.map Line.bytes).flatten ++ [13, 10])

def matching (device : Device) (type : List UInt8) : Bool :=
  type = ssdpAll || sameIgnoringCase type device.deviceType || sameIgnoringCase type device.uuid

def Line.kind (l : Line) : Header :=
  match named (cut l.name) with
  | .start => if 3 ≤ l.value.length then named (cut (l.value.take 2)) else .start
  | header => header

def Line.Refused (device : Device) (l : Line) : Prop :=
  l.kind = .st ∧ matching device (cut l.value) = false

def uuidAfter (device : Device) (flag : Bool) (lines : List Line) : Bool :=
  lines.foldl (fun flag l =>
    if l.kind = .st then sameIgnoringCase (cut l.value) device.uuid else flag) flag

def Answering (r : Client × Notify × Option Message) : Prop :=
  r.1.pending = true ∨ r.2.2 = some .response

/-- An answer waits exactly if some `ST` line asks for this device, by its UUID if that line
does. -/
def SearchAnswered (device : Device) (now : UInt32) (n : Notify) (s : Search) : Prop :=
  ∀ (clock : Clock) (client : Client), client.pending = false →
    (Answering (update device clock now n client s.datagram) ↔
      ∃ l ∈ s.lines, l.name = stName ∧ matching device l.value = true) ∧
    (Answering (update device clock now n client s.datagram) →
      ((update device clock now n client s.datagram).1.st_is_uuid = true ↔
        ∃ l ∈ s.lines, l.name = stName ∧ sameIgnoringCase l.value device.uuid = true))

structure Received (device : Device) (client : Client) (s : Search) : Prop where
  pending : client.pending = true ↔ ∃ l ∈ s.lines, l.name = stName ∧ matching device l.value = true
  flag : client.pending = true → (client.st_is_uuid = true ↔
    ∃ l ∈ s.lines, l.name = stName ∧ sameIgnoringCase l.value device.uuid = true)

structure SearchClear (device : Device) (s : Search) : Prop where
  asked : (∃ l ∈ s.lines, l.name = stName) ∨ ∃ l ∈ s.lines, l.Refused device
  matched : ∀ l ∈ s.lines, l.name = stName → matching device l.value = true →
    (∀ l' ∈ s.lines, ¬ l'.Refused device) ∧
      uuidAfter device false s.lines = sameIgnoringCase l.value device.uuid
  unmatched : ∀ l ∈ s.lines, l.name = stName → matching device l.value = false →
    ∃ l' ∈ s.lines, l'.Refused device

namespace Parser
variable {device : Device} {clock : Clock} {p : Parser}

def heads : Header → List UInt8 → List UInt8 → List UInt8 → Header
  | h, _, _, [] => h
  | h, text, chars, c :: more =>
    heads (if h = .start then named text else h) (cut (chars ++ [c])) (chars ++ [c]) more

variable (device clock) in
theorem run_value (more : List UInt8) (p : Parser) (chars : List UInt8)
    (hstate : p.state = .value) (h : Spelled p chars) (hroom : chars.length + more.length ≤ 63)
    (htext : ∀ c ∈ more, c ≠ 13 ∧ c ≠ 10) :
    (p.run device clock more).client = p.client ∧ (p.run device clock more).state = .value ∧
      (p.run device clock more).header = heads p.header p.text chars more ∧
      Spelled (p.run device clock more) (chars ++ more) := by
  induction more generalizing p chars with
  | nil =>
    rw [List.append_nil]
    exact ⟨rfl, hstate, rfl, h⟩
  | cons c more ih =>
    have hc := htext c List.mem_cons_self
    rw [List.length_cons] at hroom
    have hcount := nextCr_text p.cr hc
    have hstep : step device clock p c = Parser.store { p with
        cr := 0, header := if p.header = .start then named p.text else p.header } c 63 := by
      unfold step react
      simp only [hstate, hcount]
      rw [if_neg (by decide), if_pos hc]
      rfl
    have hcounted : Spelled { p with
        cr := 0, header := if p.header = .start then named p.text else p.header } chars :=
      ⟨h.cursor, h.spelled, h.ended⟩
    have hstored := hcounted.store (show chars.length < 63 by omega) (Nat.le_refl 63) c
    have hrun : p.run device clock (c :: more) = (step device clock p c).run device clock more := rfl
    rw [hrun, hstep]
    obtain ⟨hclient, hstate', hheader, hspelled⟩ := ih _ (chars ++ [c])
      (by rw [store_state]; exact hstate) hstored
      (by rw [List.length_append, List.length_singleton]; omega)
      (fun d hd => htext d (List.mem_cons_of_mem c hd))
    rw [List.append_assoc] at hspelled
    rw [hstored.text (by simp), store_header] at hheader
    exact ⟨hclient.trans (by rw [store_client]), hstate', hheader, hspelled⟩

end Parser

theorem heads_known {h : Header} (hknown : h ≠ .start) (text chars more : List UInt8) :
    Parser.heads h text chars more = h := by
  induction more generalizing text chars with
  | nil => rfl
  | cons c more ih =>
    rw [Parser.heads, if_neg hknown]
    exact ih _ _

theorem named_longer (a b : UInt8) (rest : List UInt8) (h : named (cut [a, b]) = .start) :
    named (cut (a :: b :: rest)) = .start := by
  by_cases ha : a = 0
  · subst ha
    rfl
  · by_cases hb : b = 0
    · subst hb
      have hsame : cut (a :: 0 :: rest) = cut [a, 0] := by
        unfold cut
        simp [ha]
      rw [hsame]
      exact h
    · have hshort : cut [a, b] = [a, b] := by
        unfold cut
        simp [ha, hb]
      have hlong : cut (a :: b :: rest) = a :: b :: cut rest := by
        unfold cut
        simp [ha, hb]
      rw [hshort] at h
      rw [hlong]
      unfold named at h ⊢
      simp only [List.take_succ_cons, List.take_zero, List.cons.injEq, and_true] at h ⊢
      split at h
      · exact absurd h (by simp)
      · rename_i hman
        rw [if_neg hman]
        split at h
        · exact absurd h (by simp)
        · rename_i hst
          rw [if_neg (by simpa [← and_assoc] using fun h1 h2 _ => hst ⟨h1, h2⟩)]
          split at h
          · exact absurd h (by simp)
          · rename_i hmx
            rw [if_neg (by simpa [← and_assoc] using fun h1 h2 _ => hmx ⟨h1, h2⟩)]

theorem heads_start (a b : UInt8) (rest more : List UInt8) (h : named (cut [a, b]) = .start) :
    Parser.heads .start (cut (a :: b :: rest)) (a :: b :: rest) more = .start := by
  induction more generalizing rest with
  | nil => rfl
  | cons c more ih =>
    rw [Parser.heads, if_pos rfl, named_longer a b rest h]
    exact ih (rest ++ [c])

theorem named_single (a : UInt8) : named (cut [a]) = .start := by
  by_cases ha : a = 0
  · subst ha
    rfl
  · have hcut : cut [a] = [a] := by
      unfold cut
      simp [ha]
    rw [hcut]
    unfold named
    simp

theorem heads_kind (l : Line) : Parser.heads .start (cut l.name) [] l.value = l.kind := by
  unfold Line.kind
  have hne := l.value_ne
  generalize l.value = value at hne
  generalize cut l.name = name
  cases value with
  | nil => exact absurd rfl hne
  | cons a value =>
    rw [Parser.heads, if_pos rfl]
    cases hname : named name with
    | man => exact heads_known (by simp) _ _ _
    | st => exact heads_known (by simp) _ _ _
    | mx => exact heads_known (by simp) _ _ _
    | start =>
      cases value with
      | nil => rfl
      | cons b value =>
        rw [Parser.heads, if_pos rfl, List.nil_append, named_single]
        cases value with
        | nil => rfl
        | cons c value =>
          rw [Parser.heads, if_pos rfl, if_pos (by simp)]
          show Parser.heads (named (cut [a, b])) _ [a, b, c] value = named (cut [a, b])
          cases hvalue : named (cut [a, b]) with
          | man => exact heads_known (by simp) _ _ _
          | st => exact heads_known (by simp) _ _ _
          | mx => exact heads_known (by simp) _ _ _
          | start => exact heads_start a b [c] value hvalue

namespace Parser
variable {device : Device} {clock : Clock} {p : Parser}

theorem endOfLine_refused (h : p.header = .st) (hno : matching device p.text = false) :
    (p.endOfLine device clock).state = .abort := by
  unfold matching at hno
  simp only [Bool.or_eq_false_iff, decide_eq_false_iff_not] at hno
  obtain ⟨⟨hall, htype⟩, huuid⟩ := hno
  have htarget : p.searchTarget device clock = { p with state := .abort } := by
    unfold searchTarget
    simp only [if_pos hall, htype, huuid, Bool.false_eq_true, if_false]
  unfold endOfLine
  simp only [h, htarget]
  rfl

variable (clock) in
theorem searchTarget_matched (hstate : p.state = .value)
    (hmatch : matching device p.text = true) :
    (p.searchTarget device clock).state ≠ .abort ∧
      (p.searchTarget device clock).client.st_is_uuid = sameIgnoringCase p.text device.uuid ∧
      (p.searchTarget device clock).cr = p.cr := by
  unfold searchTarget answer
  simp only
  cases huuid : sameIgnoringCase p.text device.uuid with
  | true =>
    simp only [if_true]
    refine ⟨by simp, trivial, ?_⟩
    split <;> split <;> rfl
  | false =>
    simp only [Bool.false_eq_true, if_false]
    cases htype : sameIgnoringCase p.text device.deviceType with
    | true =>
      simp only [if_true]
      refine ⟨by simp, trivial, ?_⟩
      split <;> rfl
    | false =>
      have hall : p.text = ssdpAll := by
        unfold matching at hmatch
        simpa [huuid, htype] using hmatch
      simp only [hall, ne_eq, not_true_eq_false, Bool.false_eq_true, if_false]
      exact ⟨by rw [hstate]; simp, trivial, trivial⟩

variable (device clock) in
theorem endOfLine_kept (hstate : p.state = .value) (hcr : p.cr = 2)
    (h : p.header = .st → matching device p.text = true) :
    (p.endOfLine device clock).AtKey
      (if p.header = .st then sameIgnoringCase p.text device.uuid else p.client.st_is_uuid) := by
  have hvalue : State.value ≠ State.abort := by decide
  unfold endOfLine
  cases hheader : p.header with
  | st =>
    obtain ⟨hstate', hflag, hcr'⟩ := searchTarget_matched clock hstate (h hheader)
    simp only [if_pos hstate', if_true]
    exact ⟨rfl, rfl, rfl, hcr'.trans hcr, hflag⟩
  | start =>
    simp only [hstate, ne_eq, hvalue, not_false_eq_true, if_true]
    exact ⟨rfl, rfl, rfl, hcr, by simp⟩
  | man =>
    simp only [hstate, ne_eq, hvalue, not_false_eq_true, if_true]
    exact ⟨rfl, rfl, rfl, hcr, by simp⟩
  | mx =>
    simp only [hstate, ne_eq, hvalue, not_false_eq_true, if_true]
    exact ⟨rfl, rfl, rfl, hcr, by simp⟩

variable (device clock) in
theorem run_line {flag : Bool} (h : p.AtKey flag) (l : Line) :
    ∃ q : Parser, p.run device clock l.bytes = q.endOfLine device clock ∧ q.state = .value ∧
      q.cr = 2 ∧ q.header = l.kind ∧ q.text = cut l.value ∧ q.client.st_is_uuid = flag := by
  have hcr1 : (p.run device clock l.name).cr = 0 :=
    run_cr_of_last p l.name_ne fun c hc => ⟨(l.name_token c hc).1, (l.name_token c hc).2.1⟩
  obtain ⟨hclient1, hstate1, hheader1, hspelled1⟩ := run_stores device clock
    (Nat.le_refl 63) .key l.name
    (by
      intro q c hq hc hcr
      obtain ⟨h13, h10, h32, h58⟩ := l.name_token c hc
      unfold react
      simp only [hq]
      rw [if_neg (by rw [hcr ⟨h13, h10⟩]; decide), if_neg h32, if_pos ⟨h13, h10, h58⟩])
    p [] h.state (.start h.cursor) (Nat.zero_le 63)
  have hname := l.name_short
  rw [List.nil_append, List.take_of_length_le (by omega)] at hspelled1
  generalize hq1 : p.run device clock l.name = q1 at *
  have hcolon : step device clock q1 58 = ({ q1 with cr := 0 } : Parser) := by
    unfold step react
    simp only [hstate1]
    rfl
  have hspace : step device clock { q1 with cr := 0 } 32 =
      ({ q1 with cr := 0, cursor := 0, state := .value } : Parser) := by
    unfold step react
    simp only [hstate1]
    rfl
  have hvalue := l.value_short
  obtain ⟨hclient2, hstate2, hheader2, hspelled2⟩ := run_value device clock
    l.value { q1 with cr := 0, cursor := 0, state := .value } [] rfl (.start rfl)
    (by rw [List.length_nil]; omega) l.value_text
  rw [List.nil_append] at hspelled2
  generalize hq2 : Parser.run device clock { q1 with cr := 0, cursor := 0, state := .value }
    l.value = q2 at *
  have hcr2 : q2.cr = 0 := by
    rw [← hq2]
    exact run_cr_of_last _ l.value_ne l.value_text
  have hreturn : step device clock q2 13 = { q2 with cr := 1 } := by
    unfold step react
    rw [hcr2]
    simp only [hstate2]
    rfl
  have hnewline : step device clock { q2 with cr := 1 } 10 =
      Parser.endOfLine { q2 with cr := 2 } device clock := by
    unfold step react
    simp only [hstate2]
    rfl
  refine ⟨{ q2 with cr := 2 }, ?_, hstate2, rfl, ?_, hspelled2.text l.value_ne, ?_⟩
  · unfold Line.bytes
    rw [run_append, hq1]
    show Parser.run device clock (step device clock (step device clock q1 58) 32) _ = _
    rw [hcolon, hspace, run_append, hq2]
    show step device clock (step device clock q2 13) 10 = _
    rw [hreturn, hnewline]
  · have htext : Parser.text { q1 with cr := 0, cursor := 0, state := .value } = cut l.name :=
      hspelled1.text l.name_ne
    show q2.header = _
    rw [hheader2, htext]
    show heads q1.header _ _ _ = _
    rw [hheader1, h.header]
    exact heads_kind l
  · show q2.client.st_is_uuid = _
    rw [hclient2]
    show q1.client.st_is_uuid = _
    rw [hclient1]
    exact h.flag

theorem run_lines {flag : Bool} (lines : List Line) (h : p.AtKey flag) :
    (∀ l ∈ lines, ¬ l.Refused device) ∧
        (p.run device clock (lines.map Line.bytes).flatten).AtKey (uuidAfter device flag lines) ∨
      (∃ l ∈ lines, l.Refused device) ∧
        (p.run device clock (lines.map Line.bytes).flatten).state = .abort := by
  induction lines generalizing p flag with
  | nil => exact .inl ⟨fun l hl => absurd hl List.not_mem_nil, h⟩
  | cons l lines ih =>
    obtain ⟨q, hline, hstate, hcr, hheader, htext, hflag⟩ := run_line device clock h l
    rw [List.map_cons, List.flatten_cons, run_append, hline]
    by_cases hrefused : l.Refused device
    · right
      refine ⟨⟨l, List.mem_cons_self, hrefused⟩, ?_⟩
      apply (run_abort device clock _ _ _).1
      exact endOfLine_refused (hheader.trans hrefused.1) (by rw [htext]; exact hrefused.2)
    · have hkept := endOfLine_kept device clock hstate hcr (by
        intro hst
        rw [htext]
        apply Bool.of_not_eq_false
        exact fun hno => hrefused ⟨hheader.symm.trans hst, hno⟩)
      rw [hheader, htext, hflag] at hkept
      rcases ih hkept with ⟨hall, hkey⟩ | ⟨⟨l', hl', hno⟩, habort⟩
      · left
        refine ⟨?_, hkey⟩
        intro l' hl'
        rcases List.mem_cons.mp hl' with rfl | hmem
        · exact hrefused
        · exact hall l' hmem
      · exact .inr ⟨⟨l', List.mem_cons_of_mem l hl', hno⟩, habort⟩

variable (device clock) in
theorem run_end {flag : Bool} (h : p.AtKey flag) :
    (p.run device clock [13, 10]).client.pending = true ∧
      (p.run device clock [13, 10]).client.st_is_uuid = flag := by
  have hreturn : step device clock p 13 = { p with cr := 3 } := by
    unfold step react
    simp only [h.state, h.cr]
    rfl
  have hnewline : step device clock { p with cr := 3 } 10 = { p with
      cr := 4
      client := { p.client with pending := true, process_time := clock.millis } } := by
    unfold step react
    simp only [h.state]
    rfl
  have hrun : p.run device clock [13, 10] = step device clock (step device clock p 13) 10 := rfl
  rw [hrun, hreturn, hnewline]
  exact ⟨rfl, h.flag⟩

theorem run_start (device : Device) (clock : Clock) (client : Client) :
    ((initial client).run device clock (mSearch ++ startLine)).AtKey client.st_is_uuid := by
  let request : Request := ⟨mSearch, [42], mSearch_space, by simp⟩
  have hparts : mSearch ++ startLine = (request.method ++ [32]) ++ ((request.uri ++ [32]) ++
      ([72, 84, 84, 80, 47, 49, 46, 49] ++ [13, 10])) := rfl
  rw [hparts, run_append, run_append, run_append]
  obtain ⟨q1, hq1, hclient1, hcursor1, hheader1, hstate1⟩ :=
    run_method_space device clock client request
  rw [if_pos (by decide)] at hstate1
  obtain ⟨-, q2, hq2, hclient2, hcursor2, -, hheader2, hstate2⟩ :=
    run_uri device clock request hstate1.1 hcursor1 hstate1.2
  rw [if_pos (by decide)] at hstate2
  rw [hq1, hq2]
  obtain ⟨hclient3, hstate3, hheader3, -⟩ := run_proto device clock
    [72, 84, 84, 80, 47, 49, 46, 49] (by simp) hstate2 hcursor2
  have hkey := run_headers device clock hstate3 (hheader3.trans (hheader2.trans hheader1))
    (run_cr_of_last q2 (List.cons_ne_nil _ _) (by simp))
  rw [hclient3, hclient2, hclient1] at hkey
  exact hkey

end Parser

theorem receive_search (device : Device) (clock : Clock) (client : Client) (s : Search) :
    ((receive device clock client s.datagram).pending = true ↔
        ∀ l ∈ s.lines, ¬ l.Refused device) ∧
      ((receive device clock client s.datagram).pending = true →
        (receive device clock client s.datagram).st_is_uuid =
          uuidAfter device client.st_is_uuid s.lines) := by
  have hrun : receive device clock client s.datagram =
      ((((Parser.initial client).run device clock (mSearch ++ startLine)).run device clock
        (s.lines.map Line.bytes).flatten).run device clock [13, 10]).client := by
    unfold receive Search.datagram
    rw [Parser.run_append, Parser.run_append _ (s.lines.map Line.bytes).flatten]
  rw [hrun]
  rcases Parser.run_lines s.lines (Parser.run_start device clock client) with
    ⟨hall, hkey⟩ | ⟨⟨l, hl, hno⟩, habort⟩
  · obtain ⟨hpending, hflag⟩ := Parser.run_end device clock hkey
    exact ⟨iff_of_true hpending hall, fun _ => hflag⟩
  · have hpending := (Parser.run_abort device clock _ [13, 10] habort).2
      (.inr (by simp))
    refine ⟨iff_of_false (by rw [hpending]; simp) (fun hall => hall l hl hno), ?_⟩
    intro hyes
    rw [hpending] at hyes
    exact absurd hyes (by simp)

theorem kind_of_name {l : Line} (h : l.name = stName) : l.kind = .st := by
  unfold Line.kind
  rw [h]
  rfl

theorem Search.same (s : Search) {l l' : Line} (hl : l ∈ s.lines) (hl' : l' ∈ s.lines)
    (hname : l.name = stName) (hname' : l'.name = stName) : l = l' := by
  have hmem : l ∈ s.lines.filter (·.name = stName) := List.mem_filter.mpr ⟨hl, by simp [hname]⟩
  have hmem' : l' ∈ s.lines.filter (·.name = stName) := List.mem_filter.mpr ⟨hl', by simp [hname']⟩
  have honce := s.once
  generalize s.lines.filter (·.name = stName) = found at hmem hmem' honce
  match found with
  | [] => exact absurd hmem List.not_mem_nil
  | [only] => rw [List.mem_singleton.mp hmem, List.mem_singleton.mp hmem']
  | _ :: _ :: _ => simp at honce

theorem uuidAfter_irrelevant (device : Device) (flag flag' : Bool) {lines : List Line}
    (h : ∃ l ∈ lines, l.kind = .st) : uuidAfter device flag lines = uuidAfter device flag' lines := by
  induction lines generalizing flag flag' with
  | nil =>
    obtain ⟨l, hl, -⟩ := h
    exact absurd hl List.not_mem_nil
  | cons l lines ih =>
    show uuidAfter device (if l.kind = .st then _ else flag) lines =
      uuidAfter device (if l.kind = .st then _ else flag') lines
    by_cases hkind : l.kind = .st
    · rw [if_pos hkind, if_pos hkind]
    · rw [if_neg hkind, if_neg hkind]
      apply ih
      obtain ⟨l', hl', hkind'⟩ := h
      rcases List.mem_cons.mp hl' with rfl | hmem
      · exact absurd hkind' hkind
      · exact ⟨l', hmem, hkind'⟩

theorem clear_of_received {device : Device} {clock : Clock} {s : Search}
    (h : Received device (receive device clock ⟨false, false, 0, 0⟩ s.datagram) s) :
    SearchClear device s := by
  obtain ⟨hpending, hflag⟩ := receive_search device clock ⟨false, false, 0, 0⟩ s
  obtain ⟨hanswer, huuid⟩ := h
  refine ⟨?_, ?_, ?_⟩
  · apply Classical.byContradiction
    intro hneither
    rw [not_or] at hneither
    have hyes := hpending.mpr fun l hl hno => hneither.2 ⟨l, hl, hno⟩
    obtain ⟨l, hl, hname, -⟩ := hanswer.mp hyes
    exact hneither.1 ⟨l, hl, hname⟩
  · intro l hl hname hmatch
    have hyes := hanswer.mpr ⟨l, hl, hname, hmatch⟩
    refine ⟨hpending.mp hyes, ?_⟩
    rw [← hflag hyes]
    apply Bool.eq_iff_iff.mpr
    rw [huuid hyes]
    constructor
    · rintro ⟨l', hl', hname', hsame⟩
      rw [s.same hl hl' hname hname']
      exact hsame
    · exact fun hsame => ⟨l, hl, hname, hsame⟩
  · intro l hl hname hno
    apply Classical.byContradiction
    intro hnone
    have hyes := hpending.mpr fun l' hl' hrefused => hnone ⟨l', hl', hrefused⟩
    obtain ⟨l', hl', hname', hmatch⟩ := hanswer.mp hyes
    rw [s.same hl' hl hname' hname, hno] at hmatch
    exact absurd hmatch (by simp)

theorem received_of_clear {device : Device} {s : Search} (h : SearchClear device s) (clock : Clock)
    (client : Client) : Received device (receive device clock client s.datagram) s := by
  obtain ⟨hpending, hflag⟩ := receive_search device clock client s
  have hanswer : (receive device clock client s.datagram).pending = true ↔
      ∃ l ∈ s.lines, l.name = stName ∧ matching device l.value = true := by
    rw [hpending]
    constructor
    · intro hall
      rcases h.asked with ⟨l, hl, hname⟩ | ⟨l, hl, hno⟩
      · refine ⟨l, hl, hname, Bool.of_not_eq_false ?_⟩
        intro hnot
        obtain ⟨l', hl', hno⟩ := h.unmatched l hl hname hnot
        exact hall l' hl' hno
      · exact absurd hno (hall l hl)
    · rintro ⟨l, hl, hname, hmatch⟩
      exact (h.matched l hl hname hmatch).1
  refine ⟨hanswer, ?_⟩
  intro hyes
  obtain ⟨l, hl, hname, hmatch⟩ := hanswer.mp hyes
  rw [hflag hyes, uuidAfter_irrelevant device client.st_is_uuid false ⟨l, hl, kind_of_name hname⟩,
    (h.matched l hl hname hmatch).2]
  constructor
  · exact fun hsame => ⟨l, hl, hname, hsame⟩
  · rintro ⟨l', hl', hname', hsame⟩
    rw [s.same hl hl' hname hname']
    exact hsame

/-- While no delay is drawn there is none, and what is pending is so since the reception. -/
def Client.Prompt (clock : Clock) (client : Client) : Prop :=
  client.delay = 0 ∧ (client.pending = true → client.process_time = clock.millis)

theorem answer_prompt {clock : Clock} {p : Parser} (h : p.client.Prompt clock) (flag : Bool) :
    (p.answer clock flag).client.Prompt clock := ⟨h.1, fun _ => rfl⟩

theorem searchTarget_prompt {device : Device} {clock : Clock} {p : Parser}
    (h : p.client.Prompt clock) : (p.searchTarget device clock).client.Prompt clock := by
  unfold Parser.searchTarget
  simp only
  have hfirst : (if p.text ≠ ssdpAll then { p with state := .abort }
      else { p with client := { p.client with st_is_uuid := false } } : Parser).client.Prompt clock := by
    split <;> exact h
  split
  · exact ⟨by split <;> exact hfirst.1, fun _ => rfl⟩
  · split
    · exact answer_prompt hfirst false
    · exact hfirst

theorem react_prompt {device : Device} {clock : Clock} (hrandom : ∀ text, clock.random text = 0)
    {p : Parser} (h : p.client.Prompt clock) (c : UInt8) :
    (p.react device clock c).client.Prompt clock := by
  unfold Parser.react
  cases p.state with
  | method =>
    simp only
    split
    · exact h
    · rwa [Parser.store_client]
  | uri =>
    simp only
    split
    · exact h
    · rwa [Parser.store_client]
  | proto =>
    simp only
    split <;> exact h
  | key =>
    simp only
    split
    · exact ⟨h.1, fun _ => rfl⟩
    · split
      · exact h
      · split
        · rwa [Parser.store_client]
        · exact h
  | value =>
    simp only
    split
    · have hnext : ∀ q : Parser, q.client.Prompt clock →
          (if q.state ≠ .abort then { q with state := .key, header := .start, cursor := 0 }
            else q : Parser).client.Prompt clock := by
        intro q hq
        split <;> exact hq
      unfold Parser.endOfLine
      apply hnext
      cases p.header with
      | start => exact h
      | man => exact h
      | st => exact searchTarget_prompt h
      | mx => exact ⟨hrandom _, h.2⟩
    · split
      · rwa [Parser.store_client]
      · exact h
  | abort => exact ⟨rfl, fun hno => absurd hno Bool.false_ne_true⟩

theorem receive_prompt {device : Device} {clock : Clock} (hrandom : ∀ text, clock.random text = 0)
    (bytes : List UInt8) :
    (receive device clock ⟨false, false, 0, 0⟩ bytes).Prompt clock := by
  have hrun : ∀ (bytes : List UInt8) (p : Parser), p.client.Prompt clock →
      (p.run device clock bytes).client.Prompt clock := by
    intro bytes
    induction bytes with
    | nil => exact fun _ h => h
    | cons c bytes ih =>
      exact fun p h => ih _ (@react_prompt device clock hrandom
        { p with cr := Parser.nextCr p.cr c } h c)
  exact hrun bytes _ ⟨rfl, fun hno => nomatch hno⟩

theorem answering_conclude (now : UInt32) (n : Notify) (client : Client) :
    Answering (conclude now n client) ↔ client.pending = true := by
  unfold conclude Answering
  split
  · rename_i hdue
    rw [Bool.and_eq_true] at hdue
    exact iff_of_true (.inr rfl) hdue.1
  · split <;> simp

theorem conclude_flag {now : UInt32} {n : Notify} {client : Client}
    (h : n.due now = true → client.st_is_uuid = false) :
    (conclude now n client).1.st_is_uuid = client.st_is_uuid := by
  unfold conclude
  split
  · rfl
  · split
    · rename_i hdue
      exact (h hdue).symm
    · rfl

theorem searchAnswered_iff (device : Device) (now : UInt32) (n : Notify) (s : Search) :
    SearchAnswered device now n s ↔ SearchClear device s ∧ (n.due now = true →
      ∀ l ∈ s.lines, l.name = stName → sameIgnoringCase l.value device.uuid = false) := by
  constructor
  · intro h
    have hclear : SearchClear device s := by
      -- the answer is sent at once
      let clock : Clock := ⟨now - 1, fun _ => 0⟩
      have hprompt := @receive_prompt device clock (fun _ => rfl) s.datagram
      obtain ⟨hanswer, huuid⟩ := h clock ⟨false, false, 0, 0⟩ rfl
      refine @clear_of_received device clock s ⟨(answering_conclude now n _).symm.trans hanswer, ?_⟩
      intro hyes
      rw [← huuid ((answering_conclude now n _).mpr hyes), update, conclude, if_pos]
      rw [hyes, hprompt.1, hprompt.2 hyes]
      have hone : now - (now - 1) = 1 := by grind
      simp only [clock, hone]
      decide
    refine ⟨hclear, fun hdue l hl hname => Bool.eq_false_iff.mpr fun hsame => ?_⟩
    let clock : Clock := ⟨now, fun _ => 0⟩
    have hprompt := @receive_prompt device clock (fun _ => rfl) s.datagram
    obtain ⟨hanswer, huuid⟩ := h clock ⟨false, false, 0, 0⟩ rfl
    have hmatch : matching device l.value = true := by
      rw [matching, hsame, Bool.or_true]
    have hyes := hanswer.mpr ⟨l, hl, hname, hmatch⟩
    have hflag := (huuid hyes).mpr ⟨l, hl, hname, hsame⟩
    have hpending := (answering_conclude now n _).mp hyes
    rw [update, conclude, if_neg, if_pos hdue] at hflag
    · cases hflag
    · rw [hpending, hprompt.1, hprompt.2 hpending]
      simp [clock]
  · rintro ⟨hclear, hquiet⟩ clock client -
    obtain ⟨hanswer, hflag⟩ := received_of_clear hclear clock client
    refine ⟨(answering_conclude now n _).trans hanswer, fun hyes => ?_⟩
    have hpending := (answering_conclude now n _).mp hyes
    rw [update, conclude_flag, hflag hpending]
    intro hdue
    refine Bool.eq_false_iff.mpr fun huuid => ?_
    obtain ⟨l, hl, hname, hsame⟩ := (hflag hpending).mp huuid
    exact Bool.false_ne_true ((hquiet hdue l hl hname).symm.trans hsame)

end Esp8266.Ssdp
