import Esp8266.Library.CString
import Esp8266.Library.Ctype

/-! `SSDPClass::_update`: the automaton that reads a datagram a character at a time, with one buffer
for the names and for the values of its headers. -/
namespace Esp8266.Ssdp
open Esp8266.CString Esp8266.Ctype

structure Device where
  deviceType : CStr
  uuid : CStr

structure Client where
  pending : Bool
  st_is_uuid : Bool
  delay : UInt16
  process_time : UInt32

/-- `millis()`, and the delay that is drawn for the text of an MX header -/
structure Clock where
  millis : UInt32
  random : List UInt8 → UInt16

inductive State where
  | method
  | uri
  | proto
  | key
  | value
  | abort
  deriving DecidableEq

inductive Header where
  | start
  | man
  | st
  | mx
  deriving DecidableEq

structure Parser where
  client : Client
  state : State
  header : Header
  cursor : Nat
  cr : Nat
  buffer : List UInt8
  size : buffer.length = 64

def cut (bytes : List UInt8) : List UInt8 := bytes.takeWhile (· ≠ 0)

def mSearch : List UInt8 := [77, 45, 83, 69, 65, 82, 67, 72]

def ssdpAll : List UInt8 := [115, 115, 100, 112, 58, 97, 108, 108]

def sameIgnoringCase (text : List UInt8) (s : CStr) : Bool :=
  text.map tolower = s.bytes.map tolower

def named (text : List UInt8) : Header :=
  if text.take 2 = [77, 65] then .man
  else if text = [83, 84] then .st
  else if text = [77, 88] then .mx
  else .start

namespace Parser

def initial (client : Client) : Parser :=
  ⟨client, .method, .start, 0, 0, List.replicate 64 0, List.length_replicate⟩

def text (p : Parser) : List UInt8 := cut p.buffer

def store (p : Parser) (c : UInt8) (limit : Nat) : Parser :=
  if p.cursor < limit then
    { p with
      buffer := (p.buffer.set p.cursor c).set (p.cursor + 1) 0
      cursor := p.cursor + 1
      size := by rw [List.length_set, List.length_set, p.size] }
  else p

def answer (p : Parser) (clock : Clock) (st_is_uuid : Bool) : Parser :=
  { p with
    client := { p.client with pending := true, st_is_uuid, process_time := clock.millis }
    state := .key }

def searchTarget (p : Parser) (device : Device) (clock : Clock) : Parser :=
  let text := p.text
  let p :=
    if text ≠ ssdpAll then { p with state := .abort }
    else { p with client := { p.client with st_is_uuid := false } }
  let p := if sameIgnoringCase text device.deviceType then p.answer clock false else p
  if sameIgnoringCase text device.uuid then p.answer clock true else p

def endOfLine (p : Parser) (device : Device) (clock : Clock) : Parser :=
  let p :=
    match p.header with
    | .start | .man => p
    | .st => p.searchTarget device clock
    | .mx => { p with client := { p.client with delay := clock.random p.text } }
  if p.state ≠ .abort then { p with state := .key, header := .start, cursor := 0 } else p

/-- What a character does once it is counted in `cr`. -/
def react (p : Parser) (device : Device) (clock : Clock) (c : UInt8) : Parser :=
  match p.state with
  | .method =>
    if c = 32 then { p with state := if p.text = mSearch then .uri else .abort, cursor := 0 }
    else p.store c 9
  | .uri =>
    if c = 32 then { p with state := if p.text ≠ [42] then .abort else .proto, cursor := 0 }
    else p.store c 1
  | .proto => if p.cr = 2 then { p with state := .key, cursor := 0 } else p
  | .key =>
    if p.cr = 4 then
      { p with client := { p.client with pending := true, process_time := clock.millis } }
    else if c = 32 then { p with cursor := 0, state := .value }
    else if c ≠ 13 ∧ c ≠ 10 ∧ c ≠ 58 then p.store c 63
    else p
  | .value =>
    if p.cr = 2 then p.endOfLine device clock
    else if c ≠ 13 ∧ c ≠ 10 then
      -- while the header is not known the text may still be its name, or a value's beginning
      Parser.store { p with header := if p.header = .start then named p.text else p.header } c 63
    else p
  | .abort => { p with client := { p.client with pending := false, delay := 0 } }

def nextCr (cr : Nat) (c : UInt8) : Nat := if c = 13 ∨ c = 10 then (cr + 1) % 256 else 0

def step (device : Device) (clock : Clock) (p : Parser) (c : UInt8) : Parser :=
  Parser.react { p with cr := nextCr p.cr c } device clock c

def run (device : Device) (clock : Clock) (p : Parser) (bytes : List UInt8) : Parser :=
  bytes.foldl (step device clock) p

end Parser

def receive (device : Device) (clock : Clock) (client : Client) (datagram : List UInt8) : Client :=
  ((Parser.initial client).run device clock datagram).client

/-- When a notify was sent last, and the seconds between two. -/
structure Notify where
  time : UInt32
  interval : UInt32

def Notify.due (n : Notify) (now : UInt32) : Bool := n.time = 0 || now - n.time > n.interval * 1000

inductive Message where
  | response
  | notify
  deriving DecidableEq

/-- The end of `_update`: a response that is due is sent, or else a notify. -/
def conclude (now : UInt32) (n : Notify) (client : Client) : Client × Notify × Option Message :=
  if client.pending && now - client.process_time > client.delay.toUInt32 then
    ({ client with pending := false, delay := 0 }, n, some .response)
  else if n.due now then ({ client with st_is_uuid := false }, { n with time := now }, some .notify)
  else (client, n, none)

/-- `_update` with a datagram and nothing pending -/
def update (device : Device) (clock : Clock) (now : UInt32) (n : Notify) (client : Client)
    (datagram : List UInt8) : Client × Notify × Option Message :=
  conclude now n (receive device clock client datagram)

end Esp8266.Ssdp

/-! The buffer as the characters are stored, and the start line: the method and the URI are cut to
the sizes of their buffers before they are compared. -/
namespace Esp8266.Ssdp
open Esp8266.CString Esp8266.Ctype

structure Request where
  method : List UInt8
  uri : List UInt8
  method_space : ∀ c ∈ method, c ≠ 32
  uri_space : ∀ c ∈ uri, c ≠ 32

theorem mSearch_space : ∀ c ∈ mSearch, c ≠ 32 := by
  simp [mSearch]

def Request.datagram (r : Request) (rest : List UInt8) : List UInt8 :=
  r.method ++ 32 :: (r.uri ++ 32 :: rest)

namespace Parser
variable {device : Device} {clock : Clock} {p : Parser}

theorem nextCr_text (cr : Nat) {c : UInt8} (hc : c ≠ 13 ∧ c ≠ 10) : nextCr cr c = 0 := by
  unfold nextCr
  rw [if_neg (by simp [hc])]

theorem run_append (p : Parser) (first second : List UInt8) :
    p.run device clock (first ++ second) = (p.run device clock first).run device clock second :=
  List.foldl_append

@[simp] theorem store_client (p : Parser) (c : UInt8) (limit : Nat) :
    (p.store c limit).client = p.client := by
  unfold store
  split <;> rfl

@[simp] theorem store_state (p : Parser) (c : UInt8) (limit : Nat) :
    (p.store c limit).state = p.state := by
  unfold store
  split <;> rfl

@[simp] theorem store_header (p : Parser) (c : UInt8) (limit : Nat) :
    (p.store c limit).header = p.header := by
  unfold store
  split <;> rfl

@[simp] theorem store_cr (p : Parser) (c : UInt8) (limit : Nat) :
    (p.store c limit).cr = p.cr := by
  unfold store
  split <;> rfl

structure Spelled (p : Parser) (chars : List UInt8) : Prop where
  cursor : p.cursor = chars.length
  spelled : p.buffer.take chars.length = chars
  ended : chars ≠ [] → p.buffer[chars.length]? = some 0

theorem Spelled.start (h : p.cursor = 0) : Spelled p [] :=
  ⟨h, List.take_zero, fun hne => absurd rfl hne⟩

theorem Spelled.store {chars : List UInt8} (h : Spelled p chars) {limit : Nat}
    (hroom : chars.length < limit) (hlimit : limit ≤ 63) (c : UInt8) :
    Spelled (p.store c limit) (chars ++ [c]) := by
  have hsize := p.size
  unfold Parser.store
  rw [if_pos (by rw [h.cursor]; exact hroom)]
  refine ⟨?_, ?_, fun _ => ?_⟩
  · show p.cursor + 1 = _
    rw [h.cursor, List.length_append]
    rfl
  · show ((p.buffer.set p.cursor c).set (p.cursor + 1) 0).take _ = _
    rw [h.cursor, List.length_append, List.length_singleton, List.take_set_of_le (Nat.le_refl _),
      List.take_add_one, List.take_set_of_le (Nat.le_refl _), h.spelled,
      List.getElem?_set_self (by omega)]
    rfl
  · show ((p.buffer.set p.cursor c).set (p.cursor + 1) 0)[_]? = _
    rw [h.cursor, List.length_append, List.length_singleton,
      List.getElem?_set_self (by rw [List.length_set]; omega)]

theorem cut_nul (chars rest : List UInt8) : cut (chars ++ 0 :: rest) = cut chars := by
  unfold cut
  induction chars with
  | nil => rfl
  | cons c chars ih =>
    rw [List.cons_append, List.takeWhile_cons, List.takeWhile_cons, ih]

theorem Spelled.text {chars : List UInt8} (h : Spelled p chars) (hne : chars ≠ []) :
    p.text = cut chars := by
  obtain ⟨hlength, hzero⟩ := List.getElem?_eq_some_iff.mp (h.ended hne)
  have hbuffer : p.buffer = chars ++ 0 :: p.buffer.drop (chars.length + 1) := by
    have hsplit := List.take_append_drop chars.length p.buffer
    rw [h.spelled, List.drop_eq_getElem_cons hlength, hzero] at hsplit
    exact hsplit.symm
  unfold Parser.text
  rw [hbuffer]
  exact cut_nul _ _

variable (device clock) in
theorem run_stores {limit : Nat} (hlimit : limit ≤ 63) (state : State) (more : List UInt8)
    (hreact : ∀ (q : Parser) (c : UInt8), q.state = state → c ∈ more →
      (c ≠ 13 ∧ c ≠ 10 → q.cr = 0) → q.react device clock c = q.store c limit)
    (p : Parser) (chars : List UInt8) (hstate : p.state = state) (h : Spelled p chars)
    (hroom : chars.length ≤ limit) :
    (p.run device clock more).client = p.client ∧ (p.run device clock more).state = state ∧
      (p.run device clock more).header = p.header ∧
      Spelled (p.run device clock more) ((chars ++ more).take limit) := by
  induction more generalizing p chars with
  | nil =>
    rw [List.append_nil, List.take_of_length_le hroom]
    exact ⟨rfl, hstate, rfl, h⟩
  | cons c more ih =>
    have hstep : step device clock p c =
        Parser.store { p with cr := nextCr p.cr c } c limit := by
      show Parser.react { p with cr := nextCr p.cr c } device clock c = _
      apply hreact { p with cr := nextCr p.cr c } c hstate List.mem_cons_self
      exact nextCr_text p.cr
    have hcounted : Spelled { p with cr := nextCr p.cr c } chars := ⟨h.cursor, h.spelled, h.ended⟩
    have hrun : p.run device clock (c :: more) = (step device clock p c).run device clock more := rfl
    rw [hrun, hstep]
    have hrest := ih fun q d hq hd => hreact q d hq (List.mem_cons_of_mem c hd)
    by_cases hfull : chars.length < limit
    · have hstored := hcounted.store hfull hlimit c
      obtain ⟨hclient, hstate', hheader, hspelled⟩ := hrest _ (chars ++ [c])
        (by rw [store_state]; exact hstate) hstored
        (by rw [List.length_append, List.length_singleton]; omega)
      rw [List.append_assoc] at hspelled
      exact ⟨hclient.trans (by rw [store_client]), hstate', hheader.trans (by rw [store_header]),
        hspelled⟩
    · have hsame : Parser.store { p with cr := nextCr p.cr c } c limit =
          { p with cr := nextCr p.cr c } := by
        unfold Parser.store
        rw [if_neg]
        show ¬ p.cursor < limit
        rw [h.cursor]
        exact hfull
      rw [hsame]
      obtain ⟨hclient, hstate', hheader, hspelled⟩ := hrest { p with cr := nextCr p.cr c } chars
        hstate hcounted hroom
      refine ⟨hclient, hstate', hheader, ?_⟩
      rw [List.take_append_of_le_length (by omega)] at hspelled ⊢
      exact hspelled

theorem react_cr (p : Parser) (c : UInt8) : (p.react device clock c).cr = p.cr := by
  have hend : (p.endOfLine device clock).cr = p.cr := by
    have htarget : (p.searchTarget device clock).cr = p.cr := by
      unfold searchTarget answer
      simp only
      split <;> split <;> split <;> rfl
    unfold endOfLine
    simp only
    cases p.header with
    | st =>
      simp only
      split
      · exact htarget
      · exact htarget
    | start => simp only; split <;> rfl
    | man => simp only; split <;> rfl
    | mx => simp only; split <;> rfl
  unfold react
  cases p.state with
  | method => simp only; split <;> simp
  | uri => simp only; split <;> simp
  | proto => simp only; split <;> rfl
  | key =>
    simp only
    split
    · rfl
    · split
      · rfl
      · split <;> simp
  | value =>
    simp only
    split
    · exact hend
    · split <;> simp
  | abort => rfl

theorem run_cr (p : Parser) (bytes : List UInt8) {c : UInt8} (hc : c ≠ 13 ∧ c ≠ 10) :
    (p.run device clock (bytes ++ [c])).cr = 0 := by
  rw [run_append]
  show (step device clock _ c).cr = 0
  unfold step
  rw [react_cr]
  exact nextCr_text _ hc

theorem run_cr_of_last (p : Parser) {bytes : List UInt8} (hne : bytes ≠ [])
    (h : ∀ c ∈ bytes, c ≠ 13 ∧ c ≠ 10) : (p.run device clock bytes).cr = 0 := by
  have hlast := h _ (List.getLast_mem hne)
  rw [← List.dropLast_concat_getLast hne]
  exact run_cr p _ hlast

variable (device clock) in
theorem run_abort (p : Parser) (bytes : List UInt8) (hstate : p.state = .abort) :
    (p.run device clock bytes).state = .abort ∧
      ((p.client.pending = false ∨ bytes ≠ []) →
        (p.run device clock bytes).client.pending = false) := by
  induction bytes generalizing p with
  | nil => exact ⟨hstate, fun h => h.resolve_right (fun hne => hne rfl)⟩
  | cons c bytes ih =>
    have hstep : (step device clock p c).state = .abort ∧
        (step device clock p c).client.pending = false := by
      unfold step react
      simp only [hstate]
      exact ⟨trivial, trivial⟩
    obtain ⟨hstate', hpending⟩ := ih (step device clock p c) hstep.1
    exact ⟨hstate', fun _ => hpending (.inl hstep.2)⟩

structure AtKey (p : Parser) (flag : Bool) : Prop where
  state : p.state = .key
  header : p.header = .start
  cursor : p.cursor = 0
  cr : p.cr = 2
  flag : p.client.st_is_uuid = flag

section
variable (device : Device) (clock : Clock)

theorem run_method (client : Client) (r : Request) :
    ((initial client).run device clock r.method).client = client ∧
      ((initial client).run device clock r.method).state = .method ∧
      ((initial client).run device clock r.method).header = .start ∧
      ((initial client).run device clock r.method).text = cut (r.method.take 9) := by
  obtain ⟨hclient, hstate, hheader, hspelled⟩ := run_stores device clock (by decide : 9 ≤ 63)
    .method r.method
    (by
      intro q c hq hc _
      unfold react
      simp only [hq]
      rw [if_neg (r.method_space c hc)])
    (initial client) [] rfl (.start rfl) (Nat.zero_le 9)
  refine ⟨hclient, hstate, hheader, ?_⟩
  by_cases hne : r.method = []
  · rw [hne]
    rfl
  · rw [List.nil_append] at hspelled
    apply hspelled.text
    intro hnil
    rcases List.take_eq_nil_iff.mp hnil with hzero | hempty
    · exact absurd hzero (by decide)
    · exact hne hempty

theorem run_method_space (client : Client) (r : Request) :
    ∃ q : Parser, (initial client).run device clock (r.method ++ [32]) = q ∧ q.client = client ∧
      q.cursor = 0 ∧ q.header = .start ∧
      (if cut (r.method.take 9) = mSearch then q.state = .uri ∧ q.text = mSearch
        else q.state = .abort) := by
  obtain ⟨hclient, hstate, hheader, htext⟩ := run_method device clock client r
  refine ⟨_, rfl, ?_⟩
  rw [run_append]
  generalize (initial client).run device clock r.method = p at *
  have hstep : p.run device clock [32] = { p with
      cr := 0, state := if p.text = mSearch then .uri else .abort, cursor := 0 } := by
    show step device clock p 32 = _
    unfold step react
    simp only [hstate]
    rfl
  rw [hstep, htext]
  refine ⟨hclient, rfl, hheader, ?_⟩
  by_cases hsearch : cut (r.method.take 9) = mSearch
  · rw [if_pos hsearch]
    exact ⟨if_pos hsearch, htext.trans hsearch⟩
  · rw [if_neg hsearch]
    exact if_neg hsearch

theorem cut_single (c : UInt8) : cut [c] = [42] ↔ c = 42 := by
  unfold cut
  by_cases hc : c = 0
  · subst hc
    decide
  · simp [hc]

theorem run_uri (r : Request) (hstate : p.state = .uri) (hcursor : p.cursor = 0)
    (htext : p.text = mSearch) :
    (p.run device clock r.uri).client = p.client ∧
      ∃ q : Parser, p.run device clock (r.uri ++ [32]) = q ∧ q.client = p.client ∧
        q.cursor = 0 ∧ q.cr = 0 ∧ q.header = p.header ∧
        q.state = if r.uri.head? = some 42 then .proto else .abort := by
  obtain ⟨hclient, hstate', hheader, hspelled⟩ := run_stores device clock (by decide : 1 ≤ 63)
    .uri r.uri
    (by
      intro q c hq hc _
      unfold react
      simp only [hq]
      rw [if_neg (r.uri_space c hc)])
    p [] hstate (.start hcursor) (Nat.zero_le 1)
  have hread : (p.run device clock r.uri).text = [42] ↔ r.uri.head? = some 42 := by
    rw [List.nil_append] at hspelled
    cases huri : r.uri with
    | nil =>
      show p.text = [42] ↔ _
      rw [htext]
      decide
    | cons c rest =>
      rw [huri] at hspelled
      rw [hspelled.text (by simp)]
      simp only [List.take_succ_cons, List.take_zero, List.head?_cons, Option.some.injEq]
      exact cut_single c
  refine ⟨hclient, _, rfl, ?_⟩
  rw [run_append]
  generalize p.run device clock r.uri = q at *
  have hstep : q.run device clock [32] = { q with
      cr := 0, state := if q.text ≠ [42] then .abort else .proto, cursor := 0 } := by
    show step device clock q 32 = _
    unfold step react
    simp only [hstate']
    rfl
  rw [hstep]
  refine ⟨hclient, rfl, rfl, hheader, ?_⟩
  by_cases hstar : r.uri.head? = some 42
  · rw [if_pos hstar]
    exact if_neg (fun hne => hne (hread.mpr hstar))
  · rw [if_neg hstar]
    exact if_pos (fun heq => hstar (hread.mp heq))

theorem run_proto (bytes : List UInt8) (hbytes : ∀ c ∈ bytes, c ≠ 13 ∧ c ≠ 10)
    (hstate : p.state = .proto) (hcursor : p.cursor = 0) :
    (p.run device clock bytes).client = p.client ∧ (p.run device clock bytes).state = .proto ∧
      (p.run device clock bytes).header = p.header ∧ (p.run device clock bytes).cursor = 0 := by
  induction bytes generalizing p with
  | nil => exact ⟨rfl, hstate, rfl, hcursor⟩
  | cons c bytes ih =>
    have hcount := nextCr_text p.cr (hbytes c List.mem_cons_self)
    have hstep : step device clock p c = { p with cr := 0 } := by
      unfold step react
      simp only [hstate, hcount]
      rfl
    have hrun : p.run device clock (c :: bytes) = (step device clock p c).run device clock bytes := rfl
    rw [hrun, hstep]
    exact ih (fun d hd => hbytes d (List.mem_cons_of_mem c hd)) hstate hcursor

theorem run_headers (hstate : p.state = .proto) (hheader : p.header = .start) (hcr : p.cr = 0) :
    (p.run device clock [13, 10]).AtKey p.client.st_is_uuid := by
  have hreturn : step device clock p 13 = { p with cr := 1 } := by
    unfold step react
    rw [hcr]
    simp only [hstate]
    rfl
  have hnewline : step device clock { p with cr := 1 } 10 =
      { p with cr := 2, state := .key, cursor := 0 } := by
    unfold step react
    simp only [hstate]
    rfl
  show (step device clock (step device clock p 13) 10).AtKey _
  rw [hreturn, hnewline]
  exact ⟨rfl, hheader, rfl, rfl, rfl⟩

end

end Parser

end Esp8266.Ssdp
