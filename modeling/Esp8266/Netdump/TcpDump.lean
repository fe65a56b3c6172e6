import Mathlib.Algebra.GroupWithZero.Nat
import Esp8266.Library.ByteOrder
import Esp8266.Library.Machine

/-! `tcpDump`: records of captured packets are packed into one buffer, which goes to the client as
soon as it takes it as a whole; a new client replaces the old one. -/
namespace Esp8266.Netdump
open Esp8266.Runs Esp8266.LittleEndian

/-- A packet as it is captured: its bytes and the time, whether it is one of TCP with a port (either
one), and whether it belongs to the connection of the dump client. -/
structure Captured where
  data : List UInt8
  sec : Nat
  usec : Nat
  tcpWithPort : Nat → Bool
  own : Bool

def Captured.inclLen (p : Captured) : Nat := if p.data.length > 1024 then 1024 else p.data.length

def Captured.record (p : Captured) : List UInt8 :=
  leBytes 4 p.sec ++ leBytes 4 p.usec ++ leBytes 4 p.inclLen ++ leBytes 4 p.data.length ++
    p.data.take p.inclLen

def pcapHeader : List UInt8 :=
  leBytes 4 0xa1b2c3d4 ++ leBytes 4 0x00040002 ++ leBytes 4 0 ++ leBytes 4 0 ++ leBytes 4 1024 ++
    leBytes 4 1

def file (packets : List Captured) : List UInt8 := pcapHeader ++ packets.flatMap Captured.record

/-- A connection; half closed where the peer has closed it with bytes that are not read yet, and
`_pcb` is kept; null behind its end. -/
inductive Connection where
  | established
  | halfClosed
  | ended
  deriving DecidableEq

/-- A dump client: whether it was connected when it was accepted, what was sent to it, and beside it
the packets that have to be in its file: captured while it was connected, not its own, with room in
the buffer. -/
structure Client where
  port : Nat
  connection : Connection
  greeted : Bool
  written : List UInt8
  due : List Captured

def Client.connected (c : Client) : Bool := c.connection = .established

def Client.localPort (c : Client) : Nat := if c.connection = .ended then 0 else c.port

/-- A write, of which nothing is sent unless the client is connected. -/
def Client.write (c : Client) (data : List UInt8) : Client :=
  if c.connected = true then { c with written := c.written ++ data } else c

def Client.disconnect (unread : Bool) (c : Client) : Client :=
  { c with connection := if unread = true ∧ c.connection ≠ .ended then .halfClosed else .ended }

/-- What the client has to get with such packets. -/
def Client.file (c : Client) (packets : List Captured) : List UInt8 :=
  if c.greeted = true then Netdump.file packets else []

structure Dump where
  buffer : List UInt8
  pending : List Captured
  callback : Bool
  client : Option Client
  former : List Client
  stores : List Nat

def Dump.bufferIndex (s : Dump) : Nat := s.buffer.length

/-- `tcpDump`, and whether memory is found; a round of `tcpDumpLoop` with a client that may have
come (its port and its connection) and the space to send; a packet that passes the filter, with that
space; and the end of the connection, with or without bytes that are not read. -/
inductive Event where
  | tcpDump (allocated : Bool)
  | loop (arrival : Option (Nat × Connection)) (availableForWrite : Nat)
  | packet (p : Captured) (availableForWrite : Nat)
  | disconnect (unread : Bool)

def Dump.flush (s : Dump) (availableForWrite : Nat) : Dump :=
  match s.client with
  | none => s
  | some c =>
    if s.bufferIndex ≠ 0 ∧ c.connection ≠ .ended ∧ availableForWrite ≥ s.bufferIndex then
      { s with buffer := [], pending := [], client := some (c.write s.buffer) }
    else s

def Dump.process (s : Dump) (p : Captured) (availableForWrite : Nat) : Dump :=
  match s.client with
  | none => s
  | some c =>
    let due := if c.connected = true ∧ p.own = false ∧ s.bufferIndex + 16 + p.inclLen ≤ 2048 then
      c.due ++ [p] else c.due
    let s' := { s with client := some { c with due := due } }
    if s.callback = false ∨ p.tcpWithPort c.localPort = true then s'
    else if s.bufferIndex + 16 + p.inclLen < 2048 then
      Dump.flush
        { s' with
          buffer := s.buffer ++ p.record
          pending := s.pending ++ [p]
          stores := s.stores ++ [s.bufferIndex, s.bufferIndex + 4, s.bufferIndex + 8,
            s.bufferIndex + 12] }
        availableForWrite
    else s'.flush availableForWrite

def Dump.arrive (s : Dump) (arrival : Option (Nat × Connection)) : Dump :=
  match arrival with
  | none => s
  | some (port, connection) =>
    { s with
      buffer := []
      pending := []
      callback := true
      client := some (Client.write ⟨port, connection, connection = .established, [], []⟩ pcapHeader)
      former := s.client.toList ++ s.former }

def Dump.drop (s : Dump) : Dump :=
  { s with callback := s.callback && s.client.any Client.connected }

def Dump.step (s : Dump) : Event → Dump
  | .tcpDump allocated =>
    if allocated = true then { s with buffer := [], pending := [] } else s
  | .loop arrival availableForWrite => ((s.arrive arrival).drop).flush availableForWrite
  | .packet p availableForWrite => s.process p availableForWrite
  | .disconnect unread => { s with client := s.client.map (Client.disconnect unread) }

def dumping : Machine Dump Event Unit := ⟨fun s e => (s.step e, ())⟩

def Dump.initial : Dump := ⟨[], [], false, none, [], []⟩

structure Dump.Valid (s : Dump) : Prop where
  index : s.bufferIndex ≤ 2048
  aligned : ∀ offset ∈ s.stores, offset % 4 = 0
  current : ∀ c, s.client = some c → c.connected = true →
    ∃ sent, c.due = sent ++ s.pending ∧ c.written = file sent
  closed : ∀ c, s.client = some c → c.connected = false → c.written = c.file c.due
  former : ∀ c ∈ s.former, c.written = c.file c.due

/-- A step that the dump handles: nothing is waiting when the connection is over or replaced, a
packet of TCP with the port of the dump is one of the dump, none fills the buffer to the last byte,
and none is put behind packets with lengths that do not add up to whole words. -/
def Handled (s : Dump) : Event → Prop
  | .tcpDump allocated => allocated = true → s.client.any Client.connected = true → s.pending = []
  | .loop arrival _ => arrival.isSome → s.client.any Client.connected = true → s.pending = []
  | .packet p _ => ∀ c, s.client = some c →
      (c.connected = true → p.tcpWithPort c.localPort = p.own ∧
        s.bufferIndex + 16 + p.inclLen ≠ 2048) ∧
      (s.callback = true → p.tcpWithPort c.localPort = false →
        s.bufferIndex + 16 + p.inclLen < 2048 → (s.pending.map Captured.inclLen).sum % 4 = 0)
  | .disconnect _ => s.client.any Client.connected = true → s.pending = []

structure Dump.Sound (s : Dump) : Prop where
  valid : s.Valid
  buffer : s.buffer = s.pending.flatMap Captured.record
  callback : ∀ c, s.client = some c → c.connected = true → s.callback = true
  greeted : ∀ c, s.client = some c → c.connected = true → c.greeted = true

theorem record_length (p : Captured) : p.record.length = 16 + p.inclLen := by
  have hincl : p.inclLen ≤ p.data.length := by
    unfold Captured.inclLen
    split <;> omega
  unfold Captured.record
  simp only [List.length_append, leBytes_length, List.length_take]
  omega

theorem records_length (packets : List Captured) :
    (packets.flatMap Captured.record).length % 4 =
      (packets.map Captured.inclLen).sum % 4 := by
  induction packets with
  | nil => rfl
  | cons p packets ih =>
    rw [List.flatMap_cons, List.length_append, record_length, List.map_cons, List.sum_cons]
    omega

theorem file_append (first second : List Captured) :
    file (first ++ second) = file first ++ second.flatMap Captured.record := by
  unfold file
  rw [List.flatMap_append, List.append_assoc]

theorem write_connected {c : Client} (h : c.connected = true) (data : List UInt8) :
    c.write data = { c with written := c.written ++ data } := if_pos h

theorem write_lost {c : Client} (h : c.connected = false) (data : List UInt8) : c.write data = c :=
  if_neg (Bool.eq_false_iff.mp h)

theorem file_greeted {c : Client} (h : c.greeted = true) (packets : List Captured) :
    c.file packets = Netdump.file packets := if_pos h

theorem connected_of_disconnect {c : Client} {unread : Bool} :
    (c.disconnect unread).connected = false := by
  unfold Client.disconnect Client.connected
  simp only [decide_eq_false_iff_not]
  split <;> exact Connection.noConfusion

theorem flush_sound {s : Dump} (h : s.Sound) (availableForWrite : Nat) :
    (s.flush availableForWrite).Sound := by
  unfold Dump.flush
  cases hclient : s.client with
  | none => exact h
  | some c =>
    simp only
    split
    · cases hconnected : c.connected with
      | false =>
        have hlost : ∀ {c' : Client}, some c = some c' → c'.connected ≠ true := by
          rintro _ ⟨⟩
          exact Bool.eq_false_iff.mp hconnected
        rw [write_lost hconnected]
        exact ⟨⟨Nat.zero_le _, h.valid.aligned, fun c' hc hopen => absurd hopen (hlost hc),
          fun c' hc => h.valid.closed c' (hclient.trans hc), h.valid.former⟩, rfl,
          fun c' hc hopen => absurd hopen (hlost hc), fun c' hc hopen => absurd hopen (hlost hc)⟩
      | true =>
        obtain ⟨sent, hdue, hwritten⟩ := h.valid.current c hclient hconnected
        rw [write_connected hconnected]
        refine ⟨⟨Nat.zero_le _, h.valid.aligned, ?_, ?_, h.valid.former⟩, rfl, ?_, ?_⟩
        · rintro _ ⟨⟩ -
          refine ⟨c.due, (List.append_nil _).symm, ?_⟩
          show c.written ++ s.buffer = file c.due
          rw [hdue, file_append, hwritten, h.buffer]
        · rintro _ ⟨⟩ hclosed
          exact absurd (hclosed.symm.trans hconnected) Bool.false_ne_true
        · rintro _ ⟨⟩ -
          exact h.callback c hclient hconnected
        · rintro _ ⟨⟩ -
          exact h.greeted c hclient hconnected
    · exact h

theorem skip_sound {s : Dump} (h : s.Sound) {c : Client} (hclient : s.client = some c)
    {due : List Captured} (hsame : due = c.due) :
    Dump.Sound { s with client := some { c with due := due } } := by
  rw [hsame, ← hclient]
  exact h

theorem process_sound {s : Dump} (h : s.Sound) (p : Captured) (availableForWrite : Nat)
    (hhandled : Handled s (.packet p availableForWrite)) :
    (s.process p availableForWrite).Sound := by
  unfold Dump.process
  cases hclient : s.client with
  | none => exact h
  | some c =>
    obtain ⟨hown, hwords⟩ := hhandled c hclient
    have hsame : c.connected = true → (p.own = false ↔ p.tcpWithPort c.localPort = false) :=
      fun hconnected => by rw [(hown hconnected).1]
    simp only
    split
    · rename_i hskipped
      refine skip_sound h hclient (if_neg fun hdue => ?_)
      rcases hskipped with hcallback | hport
      · exact absurd (hcallback.symm.trans (h.callback c hclient hdue.1)) Bool.false_ne_true
      · exact absurd (((hsame hdue.1).mp hdue.2.1).symm.trans hport) Bool.false_ne_true
    · rename_i hkept
      obtain ⟨hcallback, hport⟩ := not_or.mp hkept
      split
      · rename_i hroom
        apply flush_sound
        refine ⟨⟨?_, ?_, ?_, ?_, h.valid.former⟩, ?_, ?_, ?_⟩
        · show (s.buffer ++ p.record).length ≤ 2048
          rw [List.length_append, record_length]
          unfold Dump.bufferIndex at hroom
          omega
        · intro offset hoffset
          have hindex : s.bufferIndex % 4 = 0 := by
            unfold Dump.bufferIndex
            rw [h.buffer, records_length]
            exact hwords (eq_true_of_ne_false hcallback) (eq_false_of_ne_true hport) hroom
          rcases List.mem_append.mp hoffset with hold | hnew
          · exact h.valid.aligned offset hold
          · simp only [List.mem_cons, List.not_mem_nil, or_false] at hnew
            omega
        · rintro _ ⟨⟩ hconnected
          obtain ⟨sent, hdue, hwritten⟩ := h.valid.current c hclient hconnected
          refine ⟨sent, ?_, hwritten⟩
          show (if _ then c.due ++ [p] else c.due) = _
          rw [if_pos ⟨hconnected, (hsame hconnected).mpr (Bool.eq_false_iff.mpr hport),
            Nat.le_of_lt hroom⟩, hdue, List.append_assoc]
        · rintro _ ⟨⟩ hclosed
          show c.written = c.file (if _ then c.due ++ [p] else c.due)
          rw [if_neg fun hdue => Bool.false_ne_true (hclosed.symm.trans hdue.1)]
          exact h.valid.closed c hclient hclosed
        · show s.buffer ++ p.record = (s.pending ++ [p]).flatMap Captured.record
          rw [List.flatMap_append, h.buffer, List.flatMap_singleton]
        · rintro _ ⟨⟩ hconnected
          exact h.callback c hclient hconnected
        · rintro _ ⟨⟩ hconnected
          exact h.greeted c hclient hconnected
      · rename_i hfull
        refine flush_sound (skip_sound h hclient (if_neg fun hdue => ?_)) _
        have hnot := (hown hdue.1).2
        omega

theorem empty_sound {s : Dump} (h : s.Sound)
    (hempty : s.client.any Client.connected = true → s.pending = []) :
    Dump.Sound { s with buffer := [], pending := [] } := by
  refine ⟨⟨Nat.zero_le _, h.valid.aligned, fun c hclient hconnected => ?_, h.valid.closed,
    h.valid.former⟩, rfl, h.callback, h.greeted⟩
  obtain ⟨sent, hdue, hwritten⟩ := h.valid.current c hclient hconnected
  have hclient' : s.client = some c := hclient
  rw [hempty (by rw [hclient']; exact hconnected)] at hdue
  exact ⟨sent, hdue, hwritten⟩

theorem written_of_empty {s : Dump} (h : s.Sound) {c : Client} (hclient : s.client = some c)
    (hempty : c.connected = true → s.pending = []) : c.written = c.file c.due := by
  cases hconnected : c.connected with
  | false => exact h.valid.closed c hclient hconnected
  | true =>
    obtain ⟨sent, hdue, hwritten⟩ := h.valid.current c hclient hconnected
    rw [hempty hconnected, List.append_nil] at hdue
    rw [file_greeted (h.greeted c hclient hconnected), hdue, hwritten]

theorem arrive_sound {s : Dump} (h : s.Sound) (arrival : Option (Nat × Connection))
    (hempty : arrival.isSome → s.client.any Client.connected = true → s.pending = []) :
    (s.arrive arrival).Sound := by
  cases arrival with
  | none => exact h
  | some arrival =>
    obtain ⟨port, connection⟩ := arrival
    refine ⟨⟨Nat.zero_le _, h.valid.aligned, ?_, ?_, fun c hc => ?_⟩, rfl, fun _ _ _ => rfl, ?_⟩
    · rintro _ ⟨⟩ hconnected
      cases connection with
      | established => exact ⟨[], rfl, rfl⟩
      | halfClosed => cases hconnected
      | ended => cases hconnected
    · rintro _ ⟨⟩ -
      cases connection <;> rfl
    · rcases List.mem_append.mp hc with hlast | hold
      · have hclient : s.client = some c := Option.mem_toList.mp hlast
        exact written_of_empty h hclient fun hconnected =>
          hempty rfl (by rw [hclient]; exact hconnected)
      · exact h.valid.former c hold
    · rintro _ ⟨⟩ hconnected
      cases connection with
      | established => rfl
      | halfClosed => cases hconnected
      | ended => cases hconnected

theorem drop_sound {s : Dump} (h : s.Sound) : s.drop.Sound := by
  refine ⟨⟨h.valid.index, h.valid.aligned, h.valid.current, h.valid.closed, h.valid.former⟩,
    h.buffer, fun c hclient hconnected => ?_, h.greeted⟩
  have hclient' : s.client = some c := hclient
  show (s.callback && s.client.any Client.connected) = true
  rw [h.callback c hclient' hconnected, hclient']
  exact hconnected

theorem step_sound {s : Dump} (h : s.Sound) (e : Event) (hhandled : Handled s e) :
    (s.step e).Sound := by
  cases e with
  | tcpDump allocated =>
    cases allocated with
    | false => exact h
    | true => exact empty_sound h (hhandled rfl)
  | loop arrival availableForWrite =>
    exact flush_sound (drop_sound (arrive_sound h arrival hhandled)) availableForWrite
  | packet p availableForWrite => exact process_sound h p availableForWrite hhandled
  | disconnect unread =>
    have hempty : s.client.any Client.connected = true → s.pending = [] := hhandled
    have hclosed : ∀ c, s.client.map (Client.disconnect unread) = some c → c.connected ≠ true := by
      intro c hc
      obtain ⟨_, -, rfl⟩ := Option.map_eq_some_iff.mp hc
      exact Bool.eq_false_iff.mp connected_of_disconnect
    refine ⟨⟨h.valid.index, h.valid.aligned, fun c hc hconnected => absurd hconnected (hclosed c hc),
      fun c hc _ => ?_, h.valid.former⟩, h.buffer, fun c hc hconnected =>
      absurd hconnected (hclosed c hc), fun c hc hconnected => absurd hconnected (hclosed c hc)⟩
    obtain ⟨old, hold, rfl⟩ := Option.map_eq_some_iff.mp hc
    have hwritten : old.written = old.file old.due :=
      written_of_empty h hold fun hconnected => hempty (by rw [hold]; exact hconnected)
    exact hwritten

theorem tcpDump_valid (events : List Event)
    (hhandled : dumping.Along Handled Dump.initial events) :
    (dumping.run Dump.initial events).1.Valid := by
  have hinitial : Dump.initial.Sound := by
    refine ⟨⟨Nat.zero_le _, fun _ h => absurd h List.not_mem_nil, ?_, ?_,
      fun _ h => absurd h List.not_mem_nil⟩, rfl, ?_, ?_⟩
    all_goals
      intro _ h
      cases h
  exact (Machine.run_invariant dumping Handled Dump.Sound
    (fun _ e h hhandled => step_sound h e hhandled) Dump.initial events hinitial hhandled).valid

def plain (length : Nat) : Captured := ⟨List.replicate length 0, 0, 0, fun _ => false, false⟩

theorem tcpDump_valid_words :
    (dumping.run Dump.initial [.tcpDump true, .loop (some (80, .established)) 1000,
      .packet (plain 4) 1000]).1.Valid :=
  tcpDump_valid _ ⟨fun _ _ => rfl, fun _ _ => rfl,
    fun c hc => by cases hc; exact ⟨fun _ => ⟨rfl, by decide⟩, fun _ _ _ => rfl⟩, trivial⟩

theorem odd_unaligned :
    21 ∈ (dumping.run Dump.initial [.tcpDump true, .loop (some (80, .established)) 0,
      .packet (plain 5) 0, .packet (plain 4) 0]).1.stores ∧
      ¬ (dumping.run Dump.initial [.tcpDump true, .loop (some (80, .established)) 0,
        .packet (plain 5) 0, .packet (plain 4) 0]).1.Valid := by
  have hstore : 21 ∈ (dumping.run Dump.initial [.tcpDump true, .loop (some (80, .established)) 0,
      .packet (plain 5) 0, .packet (plain 4) 0]).1.stores := by decide
  exact ⟨hstore, fun h => absurd (h.aligned 21 hstore) (by decide)⟩

section Reading

/-- A packet as a pcap file shows it: its time, its length, and its first bytes. -/
structure Shown where
  sec : Nat
  usec : Nat
  length : Nat
  data : List UInt8

def Captured.shown (p : Captured) : Shown :=
  ⟨p.sec % 2 ^ 32, p.usec % 2 ^ 32, p.data.length % 2 ^ 32, p.data.take 1024⟩

def number (bytes : List UInt8) (offset : Nat) : Nat := leValue ((bytes.drop offset).take 4)

/-- A reader of at most so many records; a file that ends inside of one is refused. -/
def readRecords : Nat → List UInt8 → Option (List Shown)
  | _, [] => some []
  | 0, _ => none
  | n + 1, bytes =>
    if bytes.length < 16 + number bytes 8 then none
    else
      (readRecords n (bytes.drop (16 + number bytes 8))).map fun rest =>
        ⟨number bytes 0, number bytes 4, number bytes 12, (bytes.drop 16).take (number bytes 8)⟩ ::
          rest

def readPcap (bytes : List UInt8) : Option (List Shown) :=
  if bytes.take 24 = pcapHeader then readRecords bytes.length (bytes.drop 24) else none

theorem number_eq (before after : List UInt8) (value : Nat) :
    number (before ++ (leBytes 4 value ++ after)) before.length = value % 2 ^ 32 := by
  rw [number, List.drop_left, List.take_left' (leBytes_length 4 value), leValue_leBytes]
  rfl

theorem record_shown (p : Captured) (rest : List UInt8) :
    number (p.record ++ rest) 0 = p.sec % 2 ^ 32 ∧ number (p.record ++ rest) 4 = p.usec % 2 ^ 32 ∧
      number (p.record ++ rest) 8 = p.inclLen ∧
      number (p.record ++ rest) 12 = p.data.length % 2 ^ 32 ∧
      ((p.record ++ rest).drop 16).take p.inclLen = p.data.take 1024 := by
  have hincl : p.inclLen % 2 ^ 32 = p.inclLen ∧ p.data.take p.inclLen = p.data.take 1024 := by
    unfold Captured.inclLen
    split
    · exact ⟨rfl, rfl⟩
    · rename_i hshort
      exact ⟨by omega, by rw [List.take_length, List.take_of_length_le (by omega)]⟩
  have hdata : (p.data.take p.inclLen).length = p.inclLen := by
    have := record_length p
    simp only [Captured.record, List.length_append, leBytes_length] at this
    omega
  have hsec := number_eq [] (leBytes 4 p.usec ++ (leBytes 4 p.inclLen ++
    (leBytes 4 p.data.length ++ (p.data.take p.inclLen ++ rest)))) p.sec
  have husec := number_eq (leBytes 4 p.sec) (leBytes 4 p.inclLen ++
    (leBytes 4 p.data.length ++ (p.data.take p.inclLen ++ rest))) p.usec
  have hlen := number_eq (leBytes 4 p.sec ++ leBytes 4 p.usec)
    (leBytes 4 p.data.length ++ (p.data.take p.inclLen ++ rest)) p.inclLen
  have horig := number_eq (leBytes 4 p.sec ++ leBytes 4 p.usec ++ leBytes 4 p.inclLen)
    (p.data.take p.inclLen ++ rest) p.data.length
  have hbehind : (p.record ++ rest).drop 16 = p.data.take p.inclLen ++ rest := by
    unfold Captured.record
    rw [List.append_assoc (_ ++ _), List.drop_left' (by simp)]
  simp only [List.length_append, leBytes_length, List.length_nil, List.nil_append,
    List.append_assoc] at hsec husec hlen horig
  simp only [Captured.record, List.append_assoc] at hbehind ⊢
  exact ⟨hsec, husec, hlen.trans hincl.1, horig,
    by rw [hbehind, List.take_left' hdata, hincl.2]⟩

theorem readRecords_records (packets : List Captured) (n : Nat) (h : packets.length ≤ n) :
    readRecords n (packets.flatMap Captured.record) = some (packets.map Captured.shown) := by
  induction packets generalizing n with
  | nil => unfold readRecords; rfl
  | cons p packets ih =>
    cases n with
    | zero => cases h
    | succ n =>
      obtain ⟨hsec, husec, hincl, horig, hdata⟩ :=
        record_shown p (packets.flatMap Captured.record)
      have hlength := record_length p
      rw [List.flatMap_cons, readRecords]
      · rw [hsec, husec, hincl, horig, hdata, if_neg (by rw [List.length_append]; omega),
          ← hlength, List.drop_left, ih n (Nat.le_of_succ_le_succ h)]
        rfl
      · intro hnil
        have := congrArg List.length hnil
        rw [List.length_append, List.length_nil] at this
        omega

/-- What is written to a file is read back. -/
theorem readPcap_file (packets : List Captured) :
    readPcap (file packets) = some (packets.map Captured.shown) := by
  have hheader : pcapHeader.length = 24 := rfl
  have hcount : packets.length ≤ (packets.flatMap Captured.record).length := by
    induction packets with
    | nil => exact Nat.le_refl 0
    | cons p packets ih =>
      have := record_length p
      rw [List.flatMap_cons, List.length_append, List.length_cons]
      omega
  unfold readPcap file
  rw [List.take_left' hheader, if_pos rfl, List.drop_left' hheader, List.length_append]
  exact readRecords_records packets _ (by omega)

def Event.captured : Event → List Captured
  | .packet p _ => [p]
  | _ => []

structure Dump.Whole (s : Dump) (seen : List Captured) : Prop where
  index : s.bufferIndex < 2048
  buffer : s.buffer = s.pending.flatMap Captured.record
  current : ∀ c, s.client = some c →
    (c.connected = true → c.greeted = true) ∧
      ∃ sent, c.written = c.file sent ∧ (sent ++ s.pending).Sublist seen
  former : ∀ c ∈ s.former, ∃ sent, c.written = c.file sent ∧ sent.Sublist seen

theorem flush_whole {s : Dump} {seen : List Captured} (h : s.Whole seen)
    (availableForWrite : Nat) : (s.flush availableForWrite).Whole seen := by
  unfold Dump.flush
  cases hclient : s.client with
  | none => exact h
  | some c =>
    simp only
    split
    · obtain ⟨hgreeted, sent, hwritten, hsent⟩ := h.current c hclient
      refine ⟨(by decide : 0 < 2048), rfl, ?_, h.former⟩
      cases hconnected : c.connected with
      | false =>
        rw [write_lost hconnected]
        rintro _ ⟨⟩
        refine ⟨hgreeted, sent, hwritten, ?_⟩
        rw [List.append_nil]
        exact (List.sublist_append_left ..).trans hsent
      | true =>
        rw [write_connected hconnected]
        rintro _ ⟨⟩
        refine ⟨hgreeted, sent ++ s.pending, ?_, by rwa [List.append_nil]⟩
        show c.written ++ s.buffer = c.file (sent ++ s.pending)
        rw [hwritten, file_greeted (hgreeted hconnected), file_greeted (hgreeted hconnected),
          file_append, h.buffer]
    · exact h

theorem process_whole {s : Dump} {seen : List Captured} (h : s.Whole seen) (p : Captured)
    (availableForWrite : Nat) : (s.process p availableForWrite).Whole (seen ++ [p]) := by
  have hmore : ∀ packets : List Captured, packets.Sublist seen → packets.Sublist (seen ++ [p]) :=
    fun _ hsub => hsub.trans (List.sublist_append_left ..)
  have hformer : ∀ c ∈ s.former, ∃ sent, c.written = c.file sent ∧ sent.Sublist (seen ++ [p]) := by
    intro c hc
    obtain ⟨sent, hwritten, hsent⟩ := h.former c hc
    exact ⟨sent, hwritten, hmore sent hsent⟩
  unfold Dump.process
  cases hclient : s.client with
  | none => exact ⟨h.index, h.buffer, fun c hc => (by cases hclient.symm.trans hc), hformer⟩
  | some c =>
    obtain ⟨hgreeted, sent, hwritten, hsent⟩ := h.current c hclient
    have hkept : Dump.Whole { s with client := some { c with due :=
        if c.connected = true ∧ p.own = false ∧ s.bufferIndex + 16 + p.inclLen ≤ 2048 then
          c.due ++ [p] else c.due } } (seen ++ [p]) :=
      ⟨h.index, h.buffer, by rintro _ ⟨⟩; exact ⟨hgreeted, sent, hwritten, hmore _ hsent⟩,
        hformer⟩
    simp only
    split
    · exact hkept
    · split
      · rename_i hroom
        apply flush_whole
        refine ⟨?_, ?_, ?_, hformer⟩
        · show (s.buffer ++ p.record).length < 2048
          rw [List.length_append, record_length, ← Nat.add_assoc]
          exact hroom
        · show s.buffer ++ p.record = (s.pending ++ [p]).flatMap Captured.record
          rw [List.flatMap_append, h.buffer, List.flatMap_singleton]
        · rintro _ ⟨⟩
          refine ⟨hgreeted, sent, hwritten, ?_⟩
          rw [← List.append_assoc]
          exact hsent.append (List.Sublist.refl [p])
      · exact flush_whole hkept _

theorem empty_whole {s : Dump} {seen : List Captured} (h : s.Whole seen) :
    Dump.Whole { s with buffer := [], pending := [] } seen := by
  refine ⟨(by decide : 0 < 2048), rfl, fun c hc => ?_, h.former⟩
  obtain ⟨hgreeted, sent, hwritten, hsent⟩ := h.current c hc
  exact ⟨hgreeted, sent, hwritten, (List.append_nil sent).symm ▸ (List.sublist_append_left ..).trans hsent⟩

theorem arrive_whole {s : Dump} {seen : List Captured} (h : s.Whole seen)
    (arrival : Option (Nat × Connection)) : (s.arrive arrival).Whole seen := by
  cases arrival with
  | none => exact h
  | some arrival =>
    refine ⟨(by decide : 0 < 2048), rfl, ?_, fun c hc => ?_⟩
    · obtain ⟨port, connection⟩ := arrival
      rintro _ ⟨⟩
      refine ⟨?_, [], ?_, List.nil_sublist _⟩ <;> cases connection <;>
        first | rfl | exact fun _ => rfl | exact nofun
    · rcases List.mem_append.mp hc with hlast | hold
      · obtain ⟨-, sent, hwritten, hsent⟩ := h.current c (Option.mem_toList.mp hlast)
        exact ⟨sent, hwritten, (List.sublist_append_left ..).trans hsent⟩
      · exact h.former c hold

theorem step_whole {s : Dump} {seen : List Captured} (h : s.Whole seen) (e : Event) :
    (s.step e).Whole (seen ++ e.captured) := by
  cases e with
  | packet p availableForWrite => exact process_whole h p availableForWrite
  | tcpDump allocated =>
    show (s.step (.tcpDump allocated)).Whole (seen ++ [])
    rw [List.append_nil]
    cases allocated with
    | false => exact h
    | true => exact empty_whole h
  | loop arrival availableForWrite =>
    show (s.step (.loop arrival availableForWrite)).Whole (seen ++ [])
    rw [List.append_nil]
    have harrived := arrive_whole h arrival
    have hdropped : (s.arrive arrival).drop.Whole seen :=
      ⟨harrived.index, harrived.buffer, harrived.current, harrived.former⟩
    exact flush_whole hdropped availableForWrite
  | disconnect unread =>
    show (s.step (.disconnect unread)).Whole (seen ++ [])
    rw [List.append_nil]
    refine ⟨h.index, h.buffer, fun c hc => ?_, h.former⟩
    obtain ⟨old, hold, rfl⟩ := Option.map_eq_some_iff.mp hc
    exact ⟨fun hconnected => absurd hconnected (Bool.eq_false_iff.mp connected_of_disconnect),
      (h.current old hold).2⟩

theorem run_whole {s : Dump} {seen : List Captured} (h : s.Whole seen) (events : List Event) :
    (dumping.run s events).1.Whole (seen ++ events.flatMap Event.captured) := by
  induction events generalizing s seen with
  | nil => rwa [List.flatMap_nil, List.append_nil]
  | cons e events ih =>
    rw [List.flatMap_cons, ← List.append_assoc]
    exact ih (step_whole h e)

/-- Whatever happens, what a client has got is read as a file of packets that were captured, and it
has got nothing if it was gone when it was accepted; and the buffer has room. -/
theorem tcpDump_readable (events : List Event) :
    (dumping.run Dump.initial events).1.bufferIndex < 2048 ∧
      ∀ c ∈ (dumping.run Dump.initial events).1.client.toList ++
        (dumping.run Dump.initial events).1.former,
        (c.greeted = false → c.written = []) ∧ (c.greeted = true →
          ∃ sent : List Captured, sent.Sublist (events.flatMap Event.captured) ∧
            readPcap c.written = some (sent.map Captured.shown)) := by
  have hinitial : Dump.initial.Whole [] :=
    ⟨by decide, rfl, fun _ hc => (by cases hc), fun _ hc => absurd hc List.not_mem_nil⟩
  have h := run_whole hinitial events
  rw [List.nil_append] at h
  refine ⟨h.index, fun c hc => ?_⟩
  obtain ⟨sent, hwritten, hsent⟩ : ∃ sent, c.written = c.file sent ∧
      sent.Sublist (events.flatMap Event.captured) := by
    rcases List.mem_append.mp hc with hcurrent | hformer
    · obtain ⟨-, sent, hwritten, hsent⟩ := h.current c (Option.mem_toList.mp hcurrent)
      exact ⟨sent, hwritten, (List.sublist_append_left ..).trans hsent⟩
    · exact h.former c hformer
  refine ⟨fun hnot => ?_, fun hgreeted => ⟨sent, hsent, ?_⟩⟩
  · rw [hwritten, Client.file, if_neg (Bool.eq_false_iff.mp hnot)]
  · rw [hwritten, file_greeted hgreeted, readPcap_file]

end Reading

end Esp8266.Netdump
