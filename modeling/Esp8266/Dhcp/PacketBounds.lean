import Esp8266.Dhcp.Packet

/-! Which datagrams `handle_dhcp` handles inside the message and inside its options. -/
namespace Esp8266.Dhcp
open Esp8266.Memory Esp8266.LittleEndian

def Datagram.copied (p : Datagram) : List UInt8 := p.payload ++ p.next.head?.getD []

def Datagram.message (p : Datagram) : List UInt8 :=
  (p.copied ++ List.replicate dhcpsMsgSize 0).take dhcpsMsgSize

/-- Each option in front of the end is read inside `bytes`: its length byte, one byte of a
message type, four bytes of a requested address; and if `len` announces more than `bytes`,
there is an end option. -/
def OptionsInside (bytes : List UInt8) (len : Int) : Prop :=
  if len ≤ 0 then True
  else
    match bytes with
    | [] => False
    | [code] => code = 255
    | code :: l :: value =>
      code = 255 ∨ (code = 53 → 1 ≤ value.length) ∧ (code = 50 → 4 ≤ value.length) ∧
        OptionsInside (value.drop l.toNat) (len - (l.toNat + 2))
termination_by bytes.length
decreasing_by
  rw [List.length_drop]
  simp only [List.length_cons]
  omega

def Datagram.Fits (p : Datagram) : Prop :=
  p.copied.length ≤ dhcpsMsgSize ∧
    ((p.message.drop optionsOffset).take 4 = magicCookie →
      OptionsInside ((p.message.drop (optionsOffset + 4)).take (p.totLen - 240))
        (((p.totLen : Int) - 240).bmod (2 ^ 16)))

def Handled.InBounds (handled : Handled) (p : Datagram) : Prop :=
  (∀ i ∈ handled.stores, i < dhcpsMsgSize) ∧
    ∀ k ∈ handled.reads, optionsOffset + 4 + k < p.totLen ∧ optionsOffset + 4 + k < dhcpsMsgSize

section Copy

theorem Writes.put_append (w : Writes) (start : Nat) (first second : List UInt8) :
    (w.put start first).put (start + first.length) second = w.put start (first ++ second) := by
  unfold Writes.put
  rw [write_append, List.length_append, List.range_add, List.map_append, List.map_map,
    List.append_assoc]
  have hshift : ((start + ·) ∘ (first.length + ·)) = (start + first.length + ·) :=
    funext fun i => (Nat.add_assoc start first.length i).symm
  rw [hshift]

theorem copyPayload_spec (data : List UInt8) (cnt : UInt16) (w : Writes)
    (h : cnt.toNat + data.length < 2 ^ 16) :
    (copyPayload data (cnt, w)).1.toNat = cnt.toNat + data.length ∧
      (copyPayload data (cnt, w)).2 = w.put cnt.toNat data := by
  induction data generalizing cnt w with
  | nil =>
    refine ⟨rfl, ?_⟩
    unfold copyPayload Writes.put
    rw [write_nil, List.length_nil, List.range_zero, List.map_nil, List.append_nil]
  | cons b rest ih =>
    rw [List.length_cons] at h
    have hnext : (cnt + 1).toNat = cnt.toNat + 1 := by
      rw [UInt16.toNat_add, show (1 : UInt16).toNat = 1 from rfl]
      omega
    obtain ⟨hcnt, hwrites⟩ := ih (cnt + 1) (w.put cnt.toNat [b]) (by omega)
    rw [copyPayload]
    refine ⟨by rw [hcnt, hnext, List.length_cons]; omega, ?_⟩
    rw [hwrites, hnext]
    exact Writes.put_append w cnt.toNat [b] rest

theorem copyMessage_eq (heap : Heap) (p : Datagram) :
    copyMessage heap p = Writes.put ⟨zalloc heap, []⟩ 0 p.copied := by
  have hsmall := p.small
  rw [List.length_append] at hsmall
  obtain ⟨hcnt, hwrites⟩ := copyPayload_spec p.payload 0 ⟨zalloc heap, []⟩
    (by rw [show (0 : UInt16).toNat = 0 from rfl]; omega)
  rw [show (0 : UInt16).toNat = 0 from rfl, Nat.zero_add] at hcnt
  rw [show (0 : UInt16).toNat = 0 from rfl] at hwrites
  unfold copyMessage Datagram.copied
  simp only
  cases hnext : p.next with
  | nil =>
    simp only [hwrites, List.head?_nil, Option.getD_none, List.append_nil]
  | cons payload rest =>
    rw [hnext, List.flatten_cons, List.length_append] at hsmall
    have hsecond := copyPayload_spec payload (copyPayload p.payload (0, ⟨zalloc heap, []⟩)).1
      (copyPayload p.payload (0, ⟨zalloc heap, []⟩)).2 (by omega)
    simp only [List.head?_cons, Option.getD_some]
    rw [hsecond.2, hcnt, hwrites]
    have happend := Writes.put_append ⟨zalloc heap, []⟩ 0 p.payload payload
    rwa [Nat.zero_add] at happend

theorem copyMessage_stores (heap : Heap) (p : Datagram) :
    (∀ i ∈ (copyMessage heap p).stores, i < dhcpsMsgSize) ↔ p.copied.length ≤ dhcpsMsgSize := by
  have hstores : (copyMessage heap p).stores = List.range p.copied.length := by
    rw [copyMessage_eq]
    unfold Writes.put
    simp
  rw [hstores]
  constructor
  · intro h
    rcases Nat.eq_zero_or_pos p.copied.length with hzero | hpos
    · omega
    · have := h (p.copied.length - 1) (List.mem_range.mpr (by omega))
      omega
  · intro h i hi
    have := List.mem_range.mp hi
    omega

theorem message_length (p : Datagram) : p.message.length = dhcpsMsgSize := by
  unfold Datagram.message
  rw [List.length_take, List.length_append, List.length_replicate]
  omega

theorem message_getElem (p : Datagram) (heap : Heap) (i : Nat) (hi : i < p.message.length) :
    (copyMessage heap p).memory (0 + i) = p.message[i] := by
  rw [copyMessage_eq]
  have hsmall : i < dhcpsMsgSize := by
    unfold Datagram.message at hi
    rw [List.length_take] at hi
    omega
  simp only [Writes.put, Datagram.message, List.getElem_take]
  by_cases hcopied : i < p.copied.length
  · rw [List.getElem_append_left hcopied, write_of_mem _ _ _ _ hcopied]
  · rw [List.getElem_append_right (by omega), List.getElem_replicate,
      write_of_ge _ _ _ _ (by omega)]
    unfold zalloc
    rw [Nat.zero_add, if_pos hsmall]

theorem copyMessage_read (heap : Heap) (p : Datagram) (start count : Nat)
    (hinside : start + count ≤ dhcpsMsgSize) :
    read (copyMessage heap p).memory start count = (p.message.drop start).take count := by
  have hall : read (copyMessage heap p).memory 0 dhcpsMsgSize = p.message := by
    rw [← message_length p]
    exact (read_eq_iff _ _ _).mpr (message_getElem p heap)
  rw [← hall, read_drop _ _ _ _ (by omega), read_take _ _ _ _ (by omega), Nat.zero_add]

end Copy

section Options

theorem valueReads_lt (code : UInt8) (k limit : Nat) :
    (∀ i ∈ valueReads code k, i < limit) ↔
      (code = 53 → 1 ≤ limit - (k + 2)) ∧ (code = 50 → 4 ≤ limit - (k + 2)) := by
  unfold valueReads
  by_cases htype : code = 53
  · subst htype
    simp
    omega
  · rw [if_neg htype]
    by_cases haddress : code = 50
    · subst haddress
      simp
      omega
    · simp [htype, haddress]

theorem optionLoop_reads (options : Heap) (client : UInt32) (len : Int) (limit : Nat)
    (hlimit : (limit : Int) ≤ len) (k : Nat) (type : UInt8) (state : ParseState) :
    (∀ i ∈ (optionLoop options client len k type state).reads, i < limit) ↔
      OptionsInside (read options k (limit - k)) (len - k) := by
  rw [optionLoop, OptionsInside.eq_def]
  by_cases hgoes : (k : Int) < len
  · have hannounced : ¬ len - k ≤ 0 := by omega
    rw [if_pos hgoes, if_neg hannounced]
    simp only
    rcases Nat.lt_or_ge k limit with hinside | hbeyond
    · obtain ⟨more, hmore⟩ : ∃ more, limit - k = more + 1 := ⟨limit - k - 1, by omega⟩
      have hread : read options k (limit - k) = options k :: read options (k + 1) more := by
        rw [hmore, Nat.add_comm, read_add]
        rfl
      by_cases hend : options k = 255
      · rw [if_pos hend, hread, hend]
        cases read options (k + 1) more with
        | nil => simp [hinside]
        | cons l value => simp [hinside]
      · rw [if_neg hend, hread]
        cases more with
        | zero =>
          rw [read_zero]
          simp only [hend, iff_false]
          intro hall
          have := hall (k + 1) (by simp)
          omega
        | succ more =>
          have hrest : read options (k + 1) (more + 1) =
              options (k + 1) :: read options (k + 2) more := by
            rw [Nat.add_comm more, read_add]
            rfl
          have hnext := optionLoop_reads options client len limit hlimit
            (k + (options (k + 1)).toNat + 2) (if options k = 53 then options (k + 2) else type)
            (if options k = 50 then
              if read options (k + 2) 4 = leBytes 4 client.toNat then .ack else .nak
            else state)
          have hdrop : (read options (k + 2) more).drop (options (k + 1)).toNat =
              read options (k + (options (k + 1)).toNat + 2)
                (limit - (k + (options (k + 1)).toNat + 2)) := by
            rcases Nat.le_total (options (k + 1)).toNat more with hle | hge
            · rw [read_drop _ _ _ _ hle]
              congr 1 <;> omega
            · rw [List.drop_of_length_le (by rw [read_length]; exact hge),
                show limit - (k + (options (k + 1)).toNat + 2) = 0 by omega, read_zero]
          have hvalues := valueReads_lt (options k) k limit
          have hlen : len - ((k + (options (k + 1)).toNat + 2 : Nat) : Int) =
              len - k - ((options (k + 1)).toNat + 2) := by omega
          rw [hlen, ← hdrop] at hnext
          rw [hrest]
          simp only [hend, false_or, read_length]
          rw [show more = limit - (k + 2) by omega] at hnext ⊢
          rw [← hnext]
          simp only [List.mem_cons, List.mem_append, or_imp, forall_and, forall_eq]
          constructor
          · intro ⟨_, hvalue, _, hothers⟩
            obtain ⟨htype, haddress⟩ := hvalues.mp hvalue
            exact ⟨htype, haddress, hothers⟩
          · intro ⟨htype, haddress, hothers⟩
            exact ⟨hinside, hvalues.mpr ⟨htype, haddress⟩, by omega, hothers⟩
    · rw [show limit - k = 0 by omega, read_zero]
      simp only [iff_false]
      intro hall
      have := hall k (by split <;> simp)
      omega
  · have hannounced : len - k ≤ 0 := by omega
    rw [if_neg hgoes, if_pos hannounced]
    simp
termination_by (len - k).toNat

theorem announced_eq (p : Datagram) :
    ((UInt16.ofInt ((p.totLen : Int).bmod (2 ^ 16) - 240)).toNat : Int).bmod (2 ^ 16) =
      ((p.totLen : Int) - 240).bmod (2 ^ 16) := by
  have hnat : ((UInt16.ofInt ((p.totLen : Int).bmod (2 ^ 16) - 240)).toNat : Int) =
      ((p.totLen : Int).bmod (2 ^ 16) - 240) % 2 ^ 16 := by
    unfold UInt16.ofInt
    rw [UInt16.toNat_ofNat']
    omega
  rw [hnat]
  exact (Int.emod_bmod _ _).trans (Int.bmod_sub_bmod)

theorem announced_positive (p : Datagram) (h : 0 < ((p.totLen : Int) - 240).bmod (2 ^ 16)) :
    ((p.totLen : Int) - 240).bmod (2 ^ 16) = p.totLen - 240 ∧ 240 < p.totLen := by
  have hsmall : p.totLen < 2 ^ 16 := p.small
  have hmod : ((p.totLen : Int) - 240).bmod (2 ^ 16) =
      if ((p.totLen : Int) - 240) % 2 ^ 16 < 2 ^ 15 then ((p.totLen : Int) - 240) % 2 ^ 16
      else ((p.totLen : Int) - 240) % 2 ^ 16 - 2 ^ 16 := rfl
  rw [hmod] at h ⊢
  split at h
  · rename_i hlow
    rw [if_pos hlow]
    omega
  · omega

end Options

section Reply

/-- All stores of `w` that are not in `before` lie in the message. -/
def StoresInside (before : List Nat) (w : Writes) : Prop :=
  ∃ more, w.stores = before ++ more ∧ ∀ i ∈ more, i < dhcpsMsgSize

theorem StoresInside.put {before : List Nat} {w : Writes} (h : StoresInside before w)
    {start : Nat} {bytes : List UInt8} (hinside : start + bytes.length ≤ dhcpsMsgSize) :
    StoresInside before (w.put start bytes) := by
  obtain ⟨more, hstores, hmore⟩ := h
  refine ⟨more ++ (List.range bytes.length).map (start + ·), ?_, ?_⟩
  · unfold Writes.put
    rw [hstores, List.append_assoc]
  · intro i hi
    rcases List.mem_append.mp hi with hold | hnew
    · exact hmore i hold
    · obtain ⟨j, hj, rfl⟩ := List.mem_map.mp hnew
      have := List.mem_range.mp hj
      omega

theorem addressBytes_length (a : UInt32) : (addressBytes a).length = 4 := leBytes_length 4 a.toNat

theorem createMsg_inside (client : UInt32) {before : List Nat} {w : Writes}
    (h : StoresInside before w) :
    StoresInside before (createMsg client w).writes ∧ (createMsg client w).it ≤ dhcpsMsgSize := by
  have hbuffer : optionsOffset + 4 ≤ dhcpsMsgSize := by decide
  have haddress : yiaddrOffset + (addressBytes client).length ≤ dhcpsMsgSize := by
    rw [addressBytes_length]
    decide
  have hzeros : ∀ start count, start + count ≤ dhcpsMsgSize →
      start + (List.replicate count (0 : UInt8)).length ≤ dhcpsMsgSize := by
    intro start count hinside
    rwa [List.length_replicate]
  refine ⟨?_, hbuffer⟩
  unfold createMsg
  exact (((((((((h.put (by decide)).put (by decide)).put haddress).put
    (hzeros _ _ (by decide))).put (hzeros _ _ (by decide))).put (hzeros _ _ (by decide))).put
    (hzeros _ _ (by decide))).put (hzeros _ _ (by decide))).put (hzeros _ _ (by decide))).put
    (by decide)

theorem OptionsBuffer.add_inside {before : List Nat} {o : OptionsBuffer}
    (h : StoresInside before o.writes ∧ o.it ≤ dhcpsMsgSize)
    (option : UInt8 × Option (List UInt8)) :
    StoresInside before (o.add option).writes ∧ (o.add option).it ≤ dhcpsMsgSize := by
  obtain ⟨hwrites, hit⟩ := h
  unfold OptionsBuffer.add
  cases option.2 with
  | some data =>
    simp only
    split
    · exact ⟨hwrites, hit⟩
    · split
      · exact ⟨hwrites, hit⟩
      · refine ⟨hwrites.put ?_, ?_⟩
        · simp only [List.length_cons]
          omega
        · simp only
          omega
  | none =>
    simp only
    split
    · refine ⟨hwrites.put ?_, ?_⟩
      · simp only [List.length_singleton]
        omega
      · simp only
        omega
    · exact ⟨hwrites, hit⟩

theorem sendReply_inside (s : DhcpServer) (type : UInt8)
    (options : List (UInt8 × Option (List UInt8))) (w : Writes) :
    StoresInside w.stores (sendReply s type options w) := by
  have hfold : ∀ (calls : List (UInt8 × Option (List UInt8))) (o : OptionsBuffer),
      StoresInside w.stores o.writes ∧ o.it ≤ dhcpsMsgSize →
        StoresInside w.stores (calls.foldl OptionsBuffer.add o).writes := by
    intro calls
    induction calls with
    | nil => exact fun o h => h.1
    | cons call calls ih => exact fun o h => ih _ (OptionsBuffer.add_inside h call)
  exact hfold _ _ (createMsg_inside s.clientAddress ⟨[], (List.append_nil _).symm, by simp⟩)

end Reply

theorem handleDhcp_stores (s : DhcpServer) (offer : Offer) (heap : Heap) (p : Datagram) :
    (∀ i ∈ (handleDhcp s offer heap p).stores, i < dhcpsMsgSize) ↔
      p.copied.length ≤ dhcpsMsgSize := by
  rw [← copyMessage_stores heap p]
  have hinside : StoresInside (copyMessage heap p).stores
      ⟨(copyMessage heap p).memory, (handleDhcp s offer heap p).stores⟩ := by
    unfold handleDhcp
    simp only
    split
    · exact sendReply_inside _ _ _ _
    · exact sendReply_inside _ _ _ _
    · exact sendReply_inside _ _ _ _
    · exact ⟨[], (List.append_nil _).symm, by simp⟩
  obtain ⟨more, hstores, hmore⟩ := hinside
  simp only at hstores
  rw [hstores]
  constructor
  · exact fun hall i hi => hall i (List.mem_append_left _ hi)
  · intro hall i hi
    rcases List.mem_append.mp hi with hold | hnew
    · exact hall i hold
    · exact hmore i hnew

theorem parseOptions_reads (s : DhcpServer) (options : Heap) (len : Int) :
    (parseOptions s options len).2 = (optionLoop options s.clientAddress len 0 0 .idle).reads := by
  rw [parseOptions]

theorem parseMsg_reads (s : DhcpServer) (m : Heap) (len : UInt16) :
    (parseMsg s m len).optionReads =
      if read m optionsOffset 4 = magicCookie then
        (parseOptions (updateClient s m) (options m) ((len.toNat : Int).bmod (2 ^ 16))).2
      else [] := by
  -- said for any `ret`, so that nothing evaluates the loop
  have hreads : ∀ ret : ParseState × List Nat,
      (ParsedMsg.mk (leaveReleased (updateClient s m) m ret.1) (some ret.1) ret.2).optionReads =
        ret.2 := fun _ => rfl
  unfold parseMsg
  by_cases hcookie : read m optionsOffset 4 = magicCookie
  · exact (congrArg _ (if_pos hcookie)).trans ((hreads _).trans (if_pos hcookie).symm)
  · rw [if_neg hcookie, if_neg hcookie]

theorem options_read (heap : Heap) (p : Datagram) :
    read (options (copyMessage heap p).memory) 0
        (min (p.totLen - 240) (dhcpsMsgSize - (optionsOffset + 4))) =
      (p.message.drop (optionsOffset + 4)).take (p.totLen - 240) := by
  have hshift : ∀ count, read (options (copyMessage heap p).memory) 0 count =
      read (copyMessage heap p).memory (optionsOffset + 4) count := by
    intro count
    unfold Memory.read options
    simp only [Nat.zero_add]
  have hinside : optionsOffset + 4 +
      min (p.totLen - 240) (dhcpsMsgSize - (optionsOffset + 4)) ≤ dhcpsMsgSize := by
    unfold optionsOffset dhcpsMsgSize
    omega
  rw [hshift, copyMessage_read heap p _ _ hinside, ← List.take_take,
    List.take_of_length_le (l := p.message.drop (optionsOffset + 4))]
  exact Nat.le_of_eq (by rw [List.length_drop, message_length])

theorem handleDhcp_reads (s : DhcpServer) (offer : Offer) (heap : Heap) (p : Datagram) :
    (∀ k ∈ (handleDhcp s offer heap p).reads,
        optionsOffset + 4 + k < p.totLen ∧ optionsOffset + 4 + k < dhcpsMsgSize) ↔
      ((p.message.drop optionsOffset).take 4 = magicCookie →
        OptionsInside ((p.message.drop (optionsOffset + 4)).take (p.totLen - 240))
          (((p.totLen : Int) - 240).bmod (2 ^ 16))) := by
  have hcookie := copyMessage_read heap p optionsOffset 4 (by decide)
  unfold handleDhcp
  simp only
  rw [parseMsg_reads, hcookie, announced_eq, parseOptions_reads]
  by_cases hmagic : (p.message.drop optionsOffset).take 4 = magicCookie
  · rw [if_pos hmagic, imp_iff_right hmagic]
    by_cases hpositive : 0 < ((p.totLen : Int) - 240).bmod (2 ^ 16)
    · obtain ⟨hlen, -⟩ := announced_positive p hpositive
      rw [hlen]
      have hreads := optionLoop_reads (options (copyMessage heap p).memory)
        (updateClient s (copyMessage heap p).memory).clientAddress (p.totLen - 240)
        (min (p.totLen - 240) (dhcpsMsgSize - (optionsOffset + 4))) (by omega) 0 0 .idle
      rw [Nat.sub_zero, options_read heap p, Int.natCast_zero, Int.sub_zero] at hreads
      rw [← hreads]
      unfold optionsOffset dhcpsMsgSize
      constructor
      · intro hall i hi
        have := hall i hi
        omega
      · intro hall i hi
        have := hall i hi
        omega
    · rw [optionLoop, if_neg (by omega), OptionsInside.eq_def, if_pos (by omega)]
      simp
  · rw [if_neg hmagic]
    simp [hmagic]

/-- Packet handling stays in bounds for exactly the datagrams that fit. -/
theorem handleDhcp_inBounds_iff (s : DhcpServer) (offer : Offer) (heap : Heap) (p : Datagram) :
    (handleDhcp s offer heap p).InBounds p ↔ p.Fits := by
  unfold Handled.InBounds Datagram.Fits
  rw [handleDhcp_stores, handleDhcp_reads]

def longDatagram : Datagram where
  payload := List.replicate 549 0
  next := []
  small := by
    rw [List.flatten_nil, List.append_nil, List.length_replicate]
    decide

theorem longDatagram_overflows :
    ¬ (handleDhcp ⟨0, 0, 720, ⟨false, 0, 0⟩, [], false⟩ ⟨0, 0, 0, 0, false, []⟩ (fun _ => 0)
      longDatagram).InBounds longDatagram := by
  intro hbounds
  have hcopied := (handleDhcp_stores _ _ _ longDatagram).mp hbounds.1
  unfold Datagram.copied longDatagram at hcopied
  simp only [List.head?_nil, Option.getD_none, List.append_nil, List.length_replicate] at hcopied
  exact absurd hcopied (by decide)

end Esp8266.Dhcp
