import Esp8266.Library.LinkedList
import Esp8266.Udp.Context

/-! The send side of `UdpContext`: bytes are collected in a chain of buffers of one size, which grows
when it is full, and sent from a copy. -/
namespace Esp8266.Udp
open Esp8266.LinkedList Esp8266.Lwip

def pbufUnitSize : Nat := 128

abbrev Allocation := Option (Vector UInt8 pbufUnitSize)

structure Data where
  bytes : List UInt8
  short : bytes.length < 2 ^ 31

structure TxBuf where
  head : Chain Empty
  cur : Nat
  offset : Nat

def unit (memory : Vector UInt8 pbufUnitSize) : Pbuf Empty := ⟨memory.toList, 0, pbufUnitSize, 1, none⟩

def totLen : Chain Empty → Nat
  | [] => 0
  | p :: _ => p.totLen

def growLoop : List Allocation → Nat → Chain Empty → Chain Empty
  | some memory :: allocations, growSize, chain =>
    if growSize = 0 then chain
    else
      let chain := pbufCat chain [unit memory]
      if growSize < pbufUnitSize then chain
      else growLoop allocations (growSize - pbufUnitSize) chain
  | _, _, chain => chain

/-- `memcpy` into the payload of a buffer -/
def copyInto (used : Nat) (data : List UInt8) (p : Pbuf Empty) : Pbuf Empty :=
  { p with payload := p.payload.take used ++ data ++ p.payload.drop (used + data.length) }

namespace TxBuf

def empty : TxBuf := ⟨[], 0, 0⟩

def grow (allocations : List Allocation) (size : Nat) (b : TxBuf) : TxBuf :=
  if size < totLen b.head then b
  else { b with head := growLoop allocations (size - totLen b.head) b.head }

def reserve (allocations : List Allocation) (size : Nat) (b : TxBuf) : TxBuf :=
  match b.head, allocations with
  | [], some memory :: rest => grow rest size ⟨[unit memory], 0, 0⟩
  | [], _ => b
  | _ :: _, allocations => grow allocations size b

/-- The test before and behind `_reserve`, with a `size_t` sum. -/
def lacks (size : Nat) (b : TxBuf) : Prop :=
  b.head = [] ∨ totLen b.head < (b.offset + size) % 2 ^ 32

instance (size : Nat) (b : TxBuf) : Decidable (b.lacks size) :=
  inferInstanceAs (Decidable (_ ∨ _))

/-- The loop of `append`, and nothing where it follows a null pointer, writes behind a buffer or
does not end. -/
def copyLoop : Nat → List UInt8 → TxBuf → Option TxBuf
  | _, [], b => some b
  | 0, _ :: _, _ => none
  | fuel + 1, data, b =>
    match b.head[b.cur]? with
    | none => none
    | some p =>
      let usedCur := minus b.offset (minus (totLen b.head) p.totLen)
      let freeCur := minus p.len usedCur
      if freeCur = 0 then copyLoop fuel data { b with cur := b.cur + 1 }
      else
        let willCopy := min data.length freeCur
        if usedCur + willCopy ≤ p.len then
          copyLoop fuel (data.drop willCopy) { b with
            head := b.head.modify b.cur (copyInto usedCur (data.take willCopy))
            offset := (b.offset + willCopy) % 2 ^ 32 }
        else none

/-- `append`: how much it says that it took. -/
def append (data : Data) (allocations : List Allocation) (b : TxBuf) : Option (Nat × TxBuf) :=
  let size := data.bytes.length
  let b := if b.lacks size then b.reserve allocations ((b.offset + size) % 2 ^ 32) else b
  if b.lacks size then some (0, b)
  else (copyLoop (size + b.head.length) data.bytes b).map fun b => (size, b)

end TxBuf

/-- The loop of `trySend`: what it copies. -/
def collect : Chain Empty → Nat → List UInt8
  | [], _ => []
  | p :: rest, dataSize =>
    let willCopy := min dataSize p.len
    p.payload.take willCopy ++ collect rest (dataSize - willCopy)

/-- What the functions of lwIP do in `trySend`: the memory of the copy, if there is any, and what
`udp_sendto` returns. -/
structure Sending where
  memory : Option (Nat → UInt8)
  err : Int

def errOk : Int := 0
def errMem : Int := -1

/-- What `trySend` hands to `udp_sendto`, and what it returns. -/
structure Sent where
  datagram : Option (List UInt8)
  err : Int

/-- `trySend`, and nothing where it writes behind the copy, for which 16 bits of the size count. -/
def TxBuf.trySend (sending : Sending) (keepBufferOnError : Bool) (b : TxBuf) : Option (Sent × TxBuf) :=
  match sending.memory with
  | none => some (⟨none, errMem⟩, if keepBufferOnError then b else empty)
  | some memory =>
    let copied := collect b.head b.offset
    let payload := (List.range (b.offset % 2 ^ 16)).map memory
    if copied.length ≤ payload.length then
      some (⟨some (copied ++ payload.drop copied.length), sending.err⟩,
        if keepBufferOnError ∧ sending.err ≠ errOk then b else empty)
    else none

inductive TxOperation where
  | append (data : Data) (allocations : List Allocation)
  | trySend (sending : Sending) (keepBufferOnError : Bool)
  | cancelBuffer

inductive TxResult where
  | appended (size : Nat)
  | sent (sent : Sent)
  | cancelled

def TxBuf.step (b : TxBuf) : TxOperation → Option (TxResult × TxBuf)
  | .append data allocations => (b.append data allocations).map fun r => (.appended r.1, r.2)
  | .trySend sending keep => (b.trySend sending keep).map fun r => (.sent r.1, r.2)
  | .cancelBuffer => some (.cancelled, empty)

def TxBuf.run : TxBuf → List TxOperation → Option (List TxResult × TxBuf)
  | b, [] => some ([], b)
  | b, operation :: rest => do
    let (result, next) ← b.step operation
    let (results, last) ← next.run rest
    return (result :: results, last)

/-- What is to be sent, and how many buffers there are for it. -/
structure Collected where
  content : List UInt8
  units : Nat

/-- How many buffers there is memory for before an allocation fails. -/
def granted (allocations : List Allocation) : Nat := (allocations.takeWhile Option.isSome).length

/-- So many bytes can be counted in 16 bits, and there is memory for them. -/
def Collected.Fits (c : Collected) (data : Data) (allocations : List Allocation) : Prop :=
  c.content.length + data.bytes.length + pbufUnitSize ≤ 2 ^ 16 ∧ c.content.length + data.bytes.length ≤
    c.units * pbufUnitSize % 2 ^ 16 + granted allocations * pbufUnitSize

def Sending.result (sending : Sending) : Int :=
  if sending.memory.isSome then sending.err else errMem

def Sending.datagram (sending : Sending) (content : List UInt8) : Option (List UInt8) :=
  sending.memory.map fun _ => content

inductive Accumulates : Collected → TxOperation → TxResult → Collected → Prop
  | taken {c : Collected} {units : Nat} {data : Data} {allocations : List Allocation} :
    Accumulates c (.append data allocations) (.appended data.bytes.length)
      ⟨c.content ++ data.bytes, units⟩
  | refused {c : Collected} {units : Nat} {data : Data} {allocations : List Allocation}
    (short : ¬ c.Fits data allocations) :
    Accumulates c (.append data allocations) (.appended 0) ⟨c.content, units⟩
  | transmitted {c : Collected} {sending : Sending} {keep : Bool} (ok : sending.result = errOk) :
    Accumulates c (.trySend sending keep) (.sent ⟨some c.content, errOk⟩) ⟨[], 0⟩
  | kept {c : Collected} {sending : Sending} (failed : sending.result ≠ errOk) :
    Accumulates c (.trySend sending true) (.sent ⟨sending.datagram c.content, sending.result⟩) c
  | dropped {c : Collected} {sending : Sending} (failed : sending.result ≠ errOk) :
    Accumulates c (.trySend sending false)
      (.sent ⟨sending.datagram c.content, sending.result⟩) ⟨[], 0⟩
  | cancelled {c : Collected} : Accumulates c .cancelBuffer .cancelled ⟨[], 0⟩

inductive AccumulatesAll : Collected → List TxOperation → List TxResult → Collected → Prop
  | nil (c : Collected) : AccumulatesAll c [] [] c
  | cons {c middle final : Collected} {operation : TxOperation} {result : TxResult}
    {operations : List TxOperation} {results : List TxResult}
    (first : Accumulates c operation result middle)
    (rest : AccumulatesAll middle operations results final) :
    AccumulatesAll c (operation :: operations) (result :: results) final

def TxBuf.content (b : TxBuf) : List UInt8 := (bytes b.head).take b.offset

def TxBuf.collected (b : TxBuf) : Collected := ⟨b.content, b.head.length⟩

section Chains
variable {chain : Chain Empty}

structure Units (chain : Chain Empty) : Prop where
  len : ∀ p ∈ chain, p.len = pbufUnitSize
  total : ∀ i p, chain[i]? = some p → p.totLen = (chain.length - i) * pbufUnitSize % 2 ^ 16

theorem units_nil : Units [] := ⟨fun _ hmem => (nomatch hmem), fun _ _ h => nomatch h⟩

theorem units_unit (memory : Vector UInt8 pbufUnitSize) : Units [unit memory] := by
  refine ⟨fun p hp => ?_, fun i p hp => ?_⟩
  · rw [List.mem_singleton.mp hp]
    exact memory.length_toList
  · cases i with
    | zero =>
      cases hp
      rfl
    | succ i => cases hp

theorem Units.totLen_eq (h : Units chain) : totLen chain = chain.length * pbufUnitSize % 2 ^ 16 := by
  cases chain with
  | nil => rfl
  | cons p rest => exact h.total 0 p rfl

theorem bytes_length (h : ∀ p ∈ chain, p.len = pbufUnitSize) :
    (bytes chain).length = chain.length * pbufUnitSize := by
  induction chain with
  | nil => rfl
  | cons p rest ih =>
    have hp : p.payload.length = pbufUnitSize := h p List.mem_cons_self
    rw [bytes_cons, List.length_append, ih fun q hq => h q (List.mem_cons_of_mem _ hq), hp,
      List.length_cons, Nat.succ_mul, Nat.add_comm]

theorem Units.cat (h : Units chain) (memory : Vector UInt8 pbufUnitSize) :
    Units (pbufCat chain [unit memory]) := by
  show Units (chain.map (addTotLen pbufUnitSize) ++ [unit memory])
  refine ⟨fun p hp => ?_, fun i p hp => ?_⟩
  · rcases List.mem_append.mp hp with hold | hnew
    · obtain ⟨q, hq, rfl⟩ := List.mem_map.mp hold
      exact h.len q hq
    · exact (units_unit memory).len p hnew
  · rw [List.length_append, List.length_map, List.length_singleton]
    by_cases hi : i < chain.length
    · rw [List.getElem?_append_left (by rwa [List.length_map]), List.getElem?_map,
        Option.map_eq_some_iff] at hp
      obtain ⟨q, hq, rfl⟩ := hp
      have htotal := h.total i q hq
      have hmore : (chain.length + 1 - i) * pbufUnitSize =
          (chain.length - i) * pbufUnitSize + pbufUnitSize := by
        rw [Nat.sub_add_comm (Nat.le_of_lt hi), Nat.succ_mul]
      show (q.totLen + pbufUnitSize) % 2 ^ 16 = _
      rw [htotal, Nat.mod_add_mod, hmore]
    · have hlt := (List.getElem?_eq_some_iff.mp hp).1
      rw [List.length_append, List.length_map, List.length_singleton] at hlt
      obtain rfl : i = chain.length := by omega
      rw [List.getElem?_append_right (Nat.le_of_eq (List.length_map _)), List.length_map,
        Nat.sub_self] at hp
      cases hp
      rw [Nat.add_sub_cancel_left]
      rfl

theorem growLoop_units (h : Units chain) (allocations : List Allocation) (growSize : Nat) :
    Units (growLoop allocations growSize chain) ∧
      chain.length ≤ (growLoop allocations growSize chain).length ∧
      bytes chain <+: bytes (growLoop allocations growSize chain) := by
  induction allocations generalizing growSize chain with
  | nil => exact ⟨h, Nat.le_refl _, List.prefix_refl _⟩
  | cons allocation allocations ih =>
    cases allocation with
    | none => exact ⟨h, Nat.le_refl _, List.prefix_refl _⟩
    | some memory =>
      have hlength : chain.length ≤ (pbufCat chain [unit memory]).length := by
        simp [pbufCat]
      have hbytes : bytes chain <+: bytes (pbufCat chain [unit memory]) := by
        show bytes chain <+: bytes (chain.map (addTotLen pbufUnitSize) ++ [unit memory])
        rw [bytes_append, bytes_map_addTotLen]
        exact List.prefix_append _ _
      unfold growLoop
      split
      · exact ⟨h, Nat.le_refl _, List.prefix_refl _⟩
      · simp only
        split
        · exact ⟨h.cat memory, hlength, hbytes⟩
        · obtain ⟨hunits, hlonger, hprefixed⟩ := ih (h.cat memory) (growSize - pbufUnitSize)
          exact ⟨hunits, Nat.le_trans hlength hlonger, hbytes.trans hprefixed⟩

theorem totLen_cat (hchain : chain ≠ []) (memory : Vector UInt8 pbufUnitSize) :
    totLen (pbufCat chain [unit memory]) = (totLen chain + pbufUnitSize) % 2 ^ 16 := by
  cases chain with
  | nil => exact absurd rfl hchain
  | cons p rest => rfl

theorem granted_eq_zero {allocations : List Allocation}
    (hfirst : ∀ memory rest, allocations = some memory :: rest → False) : granted allocations = 0 := by
  cases allocations with
  | nil => rfl
  | cons allocation rest =>
    cases allocation with
    | none => rfl
    | some memory => exact (hfirst memory rest rfl).elim

theorem growLoop_enough (hchain : chain ≠ []) {allocations : List Allocation} {growSize : Nat}
    (hfits : totLen chain + growSize + pbufUnitSize ≤ 2 ^ 16)
    (hgranted : growSize ≤ granted allocations * pbufUnitSize) :
    totLen chain + growSize ≤ totLen (growLoop allocations growSize chain) := by
  induction allocations generalizing growSize chain with
  | nil => exact Nat.add_le_add_left (Nat.le_trans hgranted (Nat.le_of_eq (Nat.zero_mul _))) _
  | cons allocation allocations ih =>
    cases allocation with
    | none => exact Nat.add_le_add_left (Nat.le_trans hgranted (Nat.le_of_eq (Nat.zero_mul _))) _
    | some memory =>
      replace hgranted : growSize ≤ (granted allocations + 1) * pbufUnitSize := hgranted
      rw [Nat.succ_mul] at hgranted
      have hcat := totLen_cat hchain memory
      unfold growLoop
      split
      · omega
      · rw [Nat.mod_eq_of_lt (by omega)] at hcat
        simp only
        split
        · rw [hcat]
          omega
        · have hrest := @ih (pbufCat chain [unit memory]) (by simp [pbufCat])
            (growSize - pbufUnitSize) (by rw [hcat]; omega) (Nat.sub_le_of_le_add hgranted)
          omega

theorem Units.modify {f : Pbuf Empty → Pbuf Empty} (h : Units chain) (i : Nat)
    (hlen : ∀ p, p.len = pbufUnitSize → (f p).len = pbufUnitSize)
    (htotal : ∀ p, (f p).totLen = p.totLen) : Units (chain.modify i f) := by
  refine ⟨fun p hp => ?_, fun j p hp => ?_⟩
  · obtain ⟨j, hj, hget⟩ := List.getElem_of_mem hp
    have hsome := List.getElem?_eq_some_iff.mpr ⟨hj, hget⟩
    rw [List.getElem?_modify, Option.map_eq_map, Option.map_eq_some_iff] at hsome
    obtain ⟨q, hq, rfl⟩ := hsome
    have hunit := h.len q (List.mem_of_getElem? hq)
    split
    · exact hlen q hunit
    · exact hunit
  · rw [List.getElem?_modify, Option.map_eq_map, Option.map_eq_some_iff] at hp
    obtain ⟨q, hq, rfl⟩ := hp
    rw [List.length_modify, ← h.total j q hq]
    split
    · exact htotal q
    · rfl

theorem collect_eq (chain : Chain Empty) (dataSize : Nat) :
    collect chain dataSize = (bytes chain).take dataSize := by
  induction chain generalizing dataSize with
  | nil => exact List.take_nil.symm
  | cons p rest ih =>
    have hlen : p.len = p.payload.length := rfl
    rw [collect, ih, bytes_cons, List.take_append, hlen]
    by_cases hall : dataSize ≤ p.payload.length
    · rw [Nat.min_eq_left hall, Nat.sub_self, Nat.sub_eq_zero_of_le hall]
    · have hmore := Nat.le_of_not_le hall
      rw [Nat.min_eq_right hmore, List.take_of_length_le (Nat.le_refl _), List.take_of_length_le hmore]

end Chains

namespace TxBuf
variable {b : TxBuf}

structure Ok (b : TxBuf) : Prop where
  units : Units b.head
  null : b.head = [] → b.offset = 0
  inside : b.head ≠ [] → b.cur < b.head.length
  start : b.cur * pbufUnitSize ≤ b.offset
  within : b.offset ≤ (b.cur + 1) * pbufUnitSize
  bound : b.offset < 2 ^ 16

theorem ok_empty : Ok empty :=
  ⟨units_nil, fun _ => rfl, fun h => absurd rfl h, Nat.le_refl _, Nat.zero_le _, by decide⟩

theorem Ok.offset_le (h : Ok b) : b.offset ≤ (bytes b.head).length := by
  rw [bytes_length h.units.len]
  by_cases hnull : b.head = []
  · rw [h.null hnull]
    exact Nat.zero_le _
  · exact Nat.le_trans h.within (Nat.mul_le_mul_right _ (h.inside hnull))

theorem Ok.content_length (h : Ok b) : b.content.length = b.offset := by
  rw [content, List.length_take, Nat.min_eq_left h.offset_le]

theorem Ok.grow (h : Ok b) (hhead : b.head ≠ []) (allocations : List Allocation) (size : Nat) :
    Ok (b.grow allocations size) ∧ (b.grow allocations size).content = b.content := by
  unfold TxBuf.grow
  split
  · exact ⟨h, rfl⟩
  · obtain ⟨hunits, hlonger, more, hbytes⟩ :=
      growLoop_units h.units allocations (size - totLen b.head)
    have hpos := h.inside hhead
    refine ⟨⟨hunits, fun hnull => ?_, fun _ => Nat.lt_of_lt_of_le hpos hlonger, h.start, h.within,
      h.bound⟩, ?_⟩
    · have hzero : (growLoop allocations (size - totLen b.head) b.head).length = 0 :=
        congrArg List.length hnull
      omega
    · rw [content, content, ← hbytes, List.take_append_of_le_length h.offset_le]

theorem ok_unit (memory : Vector UInt8 pbufUnitSize) : Ok ⟨[unit memory], 0, 0⟩ :=
  ⟨units_unit memory, fun _ => rfl, fun _ => Nat.zero_lt_one, Nat.le_refl _, Nat.zero_le _,
    Nat.two_pow_pos 16⟩

theorem Ok.reserve (h : Ok b) (allocations : List Allocation) (size : Nat) :
    Ok (b.reserve allocations size) ∧ (b.reserve allocations size).content = b.content := by
  unfold TxBuf.reserve
  split
  · rename_i memory rest hnull
    obtain ⟨hok, hcontent⟩ := (ok_unit memory).grow (List.cons_ne_nil _ _) rest size
    refine ⟨hok, hcontent.trans ?_⟩
    rw [content, content, h.null hnull, List.take_zero, List.take_zero]
  · exact ⟨h, rfl⟩
  · rename_i p rest hhead
    exact h.grow (hhead ▸ List.cons_ne_nil _ _) _ size

theorem Ok.grow_enough (h : Ok b) (hhead : b.head ≠ []) {allocations : List Allocation} {size : Nat}
    (hfits : size + pbufUnitSize ≤ 2 ^ 16)
    (hgranted : size ≤ totLen b.head + granted allocations * pbufUnitSize) :
    (b.grow allocations size).head ≠ [] ∧ size ≤ totLen (b.grow allocations size).head := by
  unfold TxBuf.grow
  split
  · exact ⟨hhead, by omega⟩
  · have henough := growLoop_enough hhead (by omega) (Nat.sub_le_of_le_add (Nat.add_comm _ _ ▸ hgranted))
    have hlonger := (growLoop_units h.units allocations (size - totLen b.head)).2.1
    exact ⟨List.ne_nil_of_length_pos (Nat.lt_of_lt_of_le (List.length_pos_iff.mpr hhead) hlonger),
      by show size ≤ totLen (growLoop _ _ _); omega⟩

/-- With memory for a buffer, and for all of the bytes, the buffers are there. -/
theorem Ok.reserve_enough (h : Ok b) {allocations : List Allocation} {size : Nat} (hsize : size ≠ 0)
    (hfits : size + pbufUnitSize ≤ 2 ^ 16)
    (hgranted : size ≤ totLen b.head + granted allocations * pbufUnitSize) :
    (b.reserve allocations size).head ≠ [] ∧ size ≤ totLen (b.reserve allocations size).head := by
  unfold TxBuf.reserve
  split
  · rename_i memory rest hnull
    rw [hnull] at hgranted
    replace hgranted : size ≤ 0 + (granted rest + 1) * pbufUnitSize := hgranted
    rw [Nat.succ_mul] at hgranted
    exact (ok_unit memory).grow_enough (List.cons_ne_nil _ _) hfits
      (by show size ≤ pbufUnitSize + _; omega)
  · rename_i hnull hfirst
    rw [hnull, granted_eq_zero hfirst] at hgranted
    exact absurd (Nat.le_zero.mp hgranted) hsize
  · rename_i p rest hhead
    exact h.grow_enough (hhead ▸ List.cons_ne_nil _ _) hfits hgranted

theorem totLen_modify (chain : Chain Empty) (i : Nat) (f : Pbuf Empty → Pbuf Empty)
    (hf : ∀ p, (f p).totLen = p.totLen) : totLen (chain.modify i f) = totLen chain := by
  cases chain with
  | nil => cases i <;> rfl
  | cons p rest =>
    cases i with
    | zero => exact hf p
    | succ i => rfl

theorem Ok.usedCur (h : Ok b) {p : Pbuf Empty} (hp : b.head[b.cur]? = some p)
    (hroom : b.offset ≤ totLen b.head) :
    minus b.offset (minus (totLen b.head) p.totLen) = b.offset - b.cur * pbufUnitSize := by
  have hcur := (List.getElem?_eq_some_iff.mp hp).1
  have htotal := h.units.total b.cur p hp
  have hfirst := h.units.totLen_eq
  have hstart := h.start
  have hbound := h.bound
  rw [Nat.sub_mul] at htotal
  unfold minus
  unfold pbufUnitSize at *
  omega

theorem copyInto_len {used : Nat} {data : List UInt8} {p : Pbuf Empty} (hp : p.len = pbufUnitSize)
    (hfits : used + data.length ≤ pbufUnitSize) : (copyInto used data p).len = pbufUnitSize := by
  have hp : p.payload.length = pbufUnitSize := hp
  show (p.payload.take used ++ data ++ p.payload.drop (used + data.length)).length = _
  simp only [List.length_append, List.length_take, List.length_drop]
  omega

theorem content_write {front back : Chain Empty} {p : Pbuf Empty} {data : List UInt8} {used : Nat}
    (hfront : ∀ q ∈ front, q.len = pbufUnitSize) (hp : p.len = pbufUnitSize)
    (hfits : used + data.length ≤ pbufUnitSize) :
    (bytes (front ++ copyInto used data p :: back)).take
        (front.length * pbufUnitSize + used + data.length) =
      (bytes (front ++ p :: back)).take (front.length * pbufUnitSize + used) ++ data := by
  have hlength := bytes_length hfront
  have hp : p.payload.length = pbufUnitSize := hp
  have hpayload : (p.payload.take used).length = used := by
    rw [List.length_take]
    omega
  have hbefore : (bytes front ++ p.payload.take used).length =
      front.length * pbufUnitSize + used := by
    rw [List.length_append, hlength, hpayload]
  have hafter : (bytes front ++ p.payload.take used ++ data).length =
      front.length * pbufUnitSize + used + data.length := by
    rw [List.length_append, hbefore]
  have hold : bytes (front ++ p :: back) =
      (bytes front ++ p.payload.take used) ++ (p.payload.drop used ++ bytes back) := by
    simp only [bytes_append, bytes_cons, List.append_assoc]
    rw [← List.append_assoc (p.payload.take used), List.take_append_drop]
  have hnew : bytes (front ++ copyInto used data p :: back) =
      (bytes front ++ p.payload.take used ++ data) ++
        (p.payload.drop (used + data.length) ++ bytes back) := by
    simp only [bytes_append, bytes_cons, copyInto, List.append_assoc]
  rw [hold, hnew, List.take_left' hafter, List.take_left' hbefore]

theorem Ok.next (h : Ok b) (hhead : b.head ≠ []) (hfull : b.offset = (b.cur + 1) * pbufUnitSize)
    (hmore : b.offset < totLen b.head) : Ok { b with cur := b.cur + 1 } := by
  have hle : totLen b.head ≤ b.head.length * pbufUnitSize := h.units.totLen_eq ▸ Nat.mod_le _ _
  have hinside := h.inside hhead
  refine ⟨h.units, h.null, fun _ => ?_, Nat.le_of_eq hfull.symm, ?_, h.bound⟩
  · show b.cur + 1 < b.head.length
    unfold pbufUnitSize at *
    omega
  · show b.offset ≤ (b.cur + 1 + 1) * pbufUnitSize
    unfold pbufUnitSize at *
    omega

theorem Ok.write (h : Ok b) {p : Pbuf Empty} (hp : b.head[b.cur]? = some p) {used : Nat}
    (hused : b.offset = b.cur * pbufUnitSize + used) {data : List UInt8}
    (hfits : used + data.length ≤ pbufUnitSize) (hbound : b.offset + data.length < 2 ^ 16) :
    let b' : TxBuf := { b with
      head := b.head.modify b.cur (copyInto used data), offset := b.offset + data.length }
    Ok b' ∧ b'.content = b.content ++ data := by
  obtain ⟨hlt, hget⟩ := List.getElem?_eq_some_iff.mp hp
  have hlen : p.len = pbufUnitSize := h.units.len p (List.mem_of_getElem? hp)
  have hsplit : b.head = b.head.take b.cur ++ p :: b.head.drop (b.cur + 1) := by
    rw [← hget, ← List.drop_eq_getElem_cons hlt, List.take_append_drop]
  have hfront : (b.head.take b.cur).length = b.cur := by
    rw [List.length_take]
    exact Nat.min_eq_left (Nat.le_of_lt hlt)
  have hunits : Units (b.head.modify b.cur (copyInto used data)) :=
    h.units.modify b.cur (fun q hq => copyInto_len hq hfits) fun _ => rfl
  have hstart := h.start
  refine ⟨⟨hunits, fun hnull => ?_, fun _ => ?_, ?_, ?_, hbound⟩, ?_⟩
  · have hzero : (b.head.modify b.cur (copyInto used data)).length = 0 := congrArg List.length hnull
    rw [List.length_modify] at hzero
    omega
  · show b.cur < (b.head.modify b.cur (copyInto used data)).length
    rwa [List.length_modify]
  · exact Nat.le_trans hstart (Nat.le_add_right _ _)
  · show b.offset + data.length ≤ (b.cur + 1) * pbufUnitSize
    rw [Nat.succ_mul]
    omega
  · have hunit : ∀ q ∈ b.head.take b.cur, q.len = pbufUnitSize :=
      fun q hq => h.units.len q (List.mem_of_mem_take hq)
    have hwrite := @content_write _ (b.head.drop (b.cur + 1)) p data used hunit hlen hfits
    have hmodify := modify_middle (b.head.take b.cur) (b.head.drop (b.cur + 1)) p (copyInto used data)
    rw [hfront, ← hsplit] at hmodify
    rw [hfront, ← hsplit, ← hmodify, ← hused] at hwrite
    exact hwrite

theorem copyLoop_spec {fuel : Nat} {data : List UInt8} (h : Ok b) (hhead : b.head ≠ [])
    (hroom : b.offset + data.length ≤ totLen b.head)
    (hfuel : data.length + (b.head.length - b.cur) ≤ fuel) :
    ∃ b', copyLoop fuel data b = some b' ∧ Ok b' ∧ b'.content = b.content ++ data := by
  induction fuel generalizing data b with
  | zero =>
    have hinside := h.inside hhead
    omega
  | succ fuel ih =>
    cases data with
    | nil => exact ⟨b, rfl, h, (List.append_nil _).symm⟩
    | cons c rest =>
      have hinside := h.inside hhead
      obtain ⟨p, hp⟩ : ∃ p, b.head[b.cur]? = some p := ⟨_, List.getElem?_eq_getElem hinside⟩
      obtain ⟨used, hused⟩ : ∃ used, b.offset = b.cur * pbufUnitSize + used :=
        ⟨_, (Nat.add_sub_of_le h.start).symm⟩
      have hle : used ≤ pbufUnitSize := by
        have hwithin := h.within
        rw [Nat.succ_mul] at hwithin
        omega
      have hlen : p.len = pbufUnitSize := h.units.len p (List.mem_of_getElem? hp)
      have husedCur := h.usedCur hp (Nat.le_trans (Nat.le_add_right _ _) hroom)
      rw [hused, Nat.add_sub_cancel_left, ← hused] at husedCur
      have hfreeCur : minus p.len used = pbufUnitSize - used := by
        rw [hlen]
        unfold minus
        unfold pbufUnitSize at *
        omega
      have hbound : totLen b.head < 2 ^ 16 :=
        h.units.totLen_eq ▸ Nat.mod_lt _ (Nat.two_pow_pos 16)
      rw [List.length_cons] at hroom hfuel
      rw [copyLoop.eq_3 _ _ _ (List.cons_ne_nil c rest)]
      simp only [hp, husedCur, hfreeCur]
      split
      · -- the buffer is full, and it is not the last one
        have hfull : b.offset = (b.cur + 1) * pbufUnitSize := by
          rw [Nat.succ_mul]
          omega
        refine ih (h.next hhead hfull (by omega)) hhead hroom ?_
        show (c :: rest).length + (b.head.length - (b.cur + 1)) ≤ fuel
        rw [List.length_cons]
        omega
      · obtain ⟨n, hn⟩ : ∃ n, n = min (c :: rest).length (pbufUnitSize - used) := ⟨_, rfl⟩
        rw [← hn]
        rw [List.length_cons] at hn
        have htaken : ((c :: rest).take n).length = n := by
          rw [List.length_take, List.length_cons]
          omega
        have hfits : used + ((c :: rest).take n).length ≤ pbufUnitSize := by
          rw [htaken]
          omega
        obtain ⟨hok, hcontent⟩ := h.write hp hused hfits (by rw [htaken]; omega)
        rw [htaken] at hok hcontent
        rw [if_pos (by rw [hlen]; omega), Nat.mod_eq_of_lt (by omega : b.offset + n < 2 ^ 32)]
        have hlength : (b.head.modify b.cur (copyInto used ((c :: rest).take n))).length =
            b.head.length := List.length_modify ..
        have hhead' : b.head.modify b.cur (copyInto used ((c :: rest).take n)) ≠ [] := by
          intro hnull
          rw [hnull, List.length_nil] at hlength
          omega
        obtain ⟨b', hloop, hok', hcontent'⟩ := @ih _ ((c :: rest).drop n) hok hhead'
          (by
            show b.offset + n + _ ≤ totLen (b.head.modify b.cur _)
            rw [totLen_modify _ _ (copyInto _ _) fun _ => rfl, List.length_drop, List.length_cons]
            omega)
          (by
            show _ + ((b.head.modify b.cur _).length - b.cur) ≤ fuel
            rw [hlength, List.length_drop, List.length_cons]
            omega)
        refine ⟨b', hloop, hok', ?_⟩
        rw [hcontent', hcontent, List.append_assoc, List.take_append_drop]

theorem Ok.not_fits (h : Ok b) {data : Data} {allocations : List Allocation}
    (hmore : data.bytes ≠ [] ∨ b.content ≠ [])
    (hstill : (b.reserve allocations ((b.offset + data.bytes.length) % 2 ^ 32)).lacks
      data.bytes.length) : ¬ b.collected.Fits data allocations := by
  rintro ⟨hcount, hgranted⟩
  obtain ⟨hok, hcontent⟩ := h.reserve allocations ((b.offset + data.bytes.length) % 2 ^ 32)
  have hoffset := congrArg List.length hcontent
  rw [hok.content_length, h.content_length] at hoffset
  have hpos : b.content.length + data.bytes.length ≠ 0 := by
    rcases hmore with hne | hne <;> have := List.length_pos_iff.mpr hne <;> omega
  replace hcount : b.content.length + data.bytes.length + pbufUnitSize ≤ 2 ^ 16 := hcount
  replace hgranted : b.content.length + data.bytes.length ≤
    b.head.length * pbufUnitSize % 2 ^ 16 + granted allocations * pbufUnitSize := hgranted
  rw [h.content_length] at hcount hgranted hpos
  rw [← h.units.totLen_eq] at hgranted
  have hmod : (b.offset + data.bytes.length) % 2 ^ 32 = b.offset + data.bytes.length :=
    Nat.mod_eq_of_lt (by omega)
  rw [hmod] at hstill hoffset
  obtain ⟨hhead, henough⟩ := h.reserve_enough hpos hcount hgranted
  rcases hstill with hnull | hshort
  · exact hhead hnull
  · rw [hoffset, hmod] at hshort
    omega

theorem append_spec (h : Ok b) (data : Data) (allocations : List Allocation) :
    ∃ size b', b.append data allocations = some (size, b') ∧ Ok b' ∧
      (size = data.bytes.length ∧ b'.content = b.content ++ data.bytes ∨
        size = 0 ∧ b'.content = b.content ∧ ¬ b.collected.Fits data allocations) := by
  obtain ⟨b1, hb1⟩ : ∃ b1, b1 = if b.lacks data.bytes.length then
      b.reserve allocations ((b.offset + data.bytes.length) % 2 ^ 32) else b := ⟨_, rfl⟩
  have hreserved : Ok b1 ∧ b1.content = b.content := by
    rw [hb1]
    split
    · exact h.reserve _ _
    · exact ⟨h, rfl⟩
  obtain ⟨hok, hcontent⟩ := hreserved
  unfold append
  simp only [← hb1]
  by_cases hlacks : b1.lacks data.bytes.length
  · rw [if_pos hlacks]
    refine ⟨0, b1, rfl, hok, ?_⟩
    by_cases hmore : data.bytes = [] ∧ b.content = []
    · exact Or.inl ⟨by rw [hmore.1]; rfl, by rw [hcontent, hmore.1, List.append_nil]⟩
    · refine Or.inr ⟨rfl, hcontent, ?_⟩
      by_cases hbefore : b.lacks data.bytes.length
      · rw [hb1, if_pos hbefore] at hlacks
        exact h.not_fits (Classical.not_and_iff_not_or_not.mp hmore) hlacks
      · rw [hb1, if_neg hbefore] at hlacks
        exact absurd hlacks hbefore
  · rw [if_neg hlacks]
    obtain ⟨hhead, hroom⟩ := not_or.mp hlacks
    have hoffset := hok.bound
    have hshort := data.short
    rw [Nat.mod_eq_of_lt (by omega)] at hroom
    obtain ⟨b', hloop, hok', hcontent'⟩ := copyLoop_spec hok hhead (Nat.le_of_not_lt hroom)
      (Nat.add_le_add_left (Nat.sub_le _ _) _)
    rw [hloop]
    exact ⟨_, b', rfl, hok', Or.inl ⟨rfl, hcontent' ▸ hcontent ▸ rfl⟩⟩

theorem trySend_spec (h : Ok b) (sending : Sending) (keep : Bool) :
    ∃ sent b', b.trySend sending keep = some (sent, b') ∧ Ok b' ∧
      Accumulates b.collected (.trySend sending keep) (.sent sent) b'.collected := by
  unfold trySend
  cases hmemory : sending.memory with
  | none =>
    have hresult : sending.result = errMem := by rw [Sending.result, hmemory]; rfl
    have hdatagram : sending.datagram b.content = none := by rw [Sending.datagram, hmemory]; rfl
    rw [← hresult, ← hdatagram]
    have hfailed : sending.result ≠ errOk := hresult ▸ (by decide)
    cases keep with
    | true => exact ⟨_, b, rfl, h, .kept hfailed⟩
    | false => exact ⟨_, empty, rfl, ok_empty, .dropped hfailed⟩
  | some memory =>
    have hresult : sending.result = sending.err := by rw [Sending.result, hmemory]; rfl
    have hdatagram : sending.datagram b.content = some b.content := by
      rw [Sending.datagram, hmemory]; rfl
    have hcopied : collect b.head b.offset = b.content := collect_eq _ _
    have hpayload : ((List.range (b.offset % 2 ^ 16)).map memory).length = b.offset := by
      rw [List.length_map, List.length_range, Nat.mod_eq_of_lt h.bound]
    simp only [hcopied, hpayload, h.content_length, Nat.le_refl, if_true]
    rw [List.drop_of_length_le (Nat.le_of_eq hpayload), List.append_nil]
    by_cases hok : sending.err = errOk
    · simp only [hok, ne_eq, not_true_eq_false, and_false, if_false]
      exact ⟨_, empty, rfl, ok_empty, .transmitted (hresult.trans hok)⟩
    · have hfailed : sending.result ≠ errOk := hresult ▸ hok
      rw [← hdatagram, ← hresult] at *
      cases keep with
      | true =>
        rw [if_pos ⟨rfl, hfailed⟩]
        exact ⟨_, b, rfl, h, .kept hfailed⟩
      | false =>
        rw [if_neg fun hkeep => nomatch hkeep.1]
        exact ⟨_, empty, rfl, ok_empty, .dropped hfailed⟩

theorem step_spec (h : Ok b) (operation : TxOperation) :
    ∃ result b', b.step operation = some (result, b') ∧ Ok b' ∧
      Accumulates b.collected operation result b'.collected := by
  cases operation with
  | append data allocations =>
    obtain ⟨size, b', happend, hok, hcontent⟩ := append_spec h data allocations
    refine ⟨.appended size, b', by rw [step, happend]; rfl, hok, ?_⟩
    unfold TxBuf.collected
    rcases hcontent with ⟨rfl, hcontent⟩ | ⟨rfl, hcontent, hshort⟩ <;> rw [hcontent]
    · exact .taken
    · exact .refused hshort
  | trySend sending keep =>
    obtain ⟨sent, b', hsend, hok, haccumulates⟩ := trySend_spec h sending keep
    exact ⟨.sent sent, b', by rw [step, hsend]; rfl, hok, haccumulates⟩
  | cancelBuffer => exact ⟨.cancelled, empty, rfl, ok_empty, .cancelled⟩

theorem run_spec (h : Ok b) (operations : List TxOperation) :
    ∃ results b', b.run operations = some (results, b') ∧ Ok b' ∧
      AccumulatesAll b.collected operations results b'.collected := by
  induction operations generalizing b with
  | nil => exact ⟨[], b, rfl, h, .nil _⟩
  | cons operation rest ih =>
    obtain ⟨result, next, hstep, hnext, hfirst⟩ := step_spec h operation
    obtain ⟨results, last, hrun, hlast, hrest⟩ := ih hnext
    refine ⟨result :: results, last, ?_, hlast, .cons hfirst hrest⟩
    simp [run, hstep, hrun]

end TxBuf

/-- In every run every operation comes back, and all together do what an accumulator of bytes does,
whose length `_tx_buf_offset` is. -/
theorem sends_what_was_appended (operations : List TxOperation) :
    ∃ results b, TxBuf.empty.run operations = some (results, b) ∧
      AccumulatesAll ⟨[], 0⟩ operations results b.collected ∧
      b.offset = b.collected.content.length := by
  obtain ⟨results, b, hrun, hok, haccumulates⟩ := TxBuf.run_spec TxBuf.ok_empty operations
  exact ⟨results, b, hrun, haccumulates, hok.content_length.symm⟩

end Esp8266.Udp
