import Esp8266.Mesh.Fragments

/-! What the receiver reads in the transmissions of a message. -/
namespace Esp8266.Mesh.Espnow

theorem cString_append (text rest : List UInt8) :
    cString (text ++ 0 :: rest) = some (text.takeWhile (· ≠ 0)) := by
  induction text with
  | nil => rfl
  | cons byte text ih =>
    rw [List.cons_append, cString, ih]
    by_cases hzero : byte = 0
    · simp [hzero]
    · simp [hzero]

theorem multiStringLoop_eq (n : Nat) : ∀ text rest : List UInt8, rest.length ≤ n →
    (∀ byte tail, rest = byte :: tail → byte = 0) →
    multiStringLoop (text ++ rest ++ [0]) (text ++ rest).length text = some (text ++ rest) := by
  induction n with
  | zero =>
    intro text rest hlength _
    have hnil : rest = [] := List.length_eq_zero_iff.mp (Nat.le_zero.mp hlength)
    subst hnil
    rw [multiStringLoop, if_neg (by simp), List.append_nil]
  | succ n ih =>
    intro text rest hlength hzero
    cases rest with
    | nil => rw [multiStringLoop, if_neg (by simp), List.append_nil]
    | cons byte rest =>
      cases hzero byte rest rfl
      rw [multiStringLoop, if_pos (by simp)]
      have hdrop : (text ++ 0 :: rest ++ [0]).drop (text.length + 1) = rest ++ 0 :: [] := by simp
      rw [hdrop, cString_append]
      dsimp only
      have hsplit : text ++ 0 :: rest =
          (text ++ 0 :: rest.takeWhile (· ≠ 0)) ++ rest.dropWhile (· ≠ 0) := by
        simp
      rw [hsplit]
      apply ih
      · have hsublist := List.dropWhile_sublist (l := rest) (· ≠ (0 : UInt8))
        exact Nat.le_trans hsublist.length_le (Nat.le_of_succ_le_succ hlength)
      · intro other tail hrest
        have hhead := List.head?_dropWhile_not (· ≠ (0 : UInt8)) rest
        rw [hrest] at hhead
        simpa using hhead

theorem uint8ArrayToMultiString_eq {array : List UInt8} (h : array ≠ []) :
    uint8ArrayToMultiString array = some array := by
  obtain ⟨text, last, rfl⟩ : ∃ text last, array = text ++ [last] :=
    ⟨array.dropLast, array.getLast h, (List.dropLast_concat_getLast h).symm⟩
  have hloop := multiStringLoop_eq text.length (text.takeWhile (· ≠ 0)) (text.dropWhile (· ≠ 0))
    (List.dropWhile_sublist _).length_le
    (by
      intro other tail hrest
      have hhead := List.head?_dropWhile_not (· ≠ (0 : UInt8)) text
      rw [hrest] at hhead
      simpa using hhead)
  rw [List.takeWhile_append_dropWhile] at hloop
  unfold uint8ArrayToMultiString
  simp only [List.getLast?_append, List.getLast?_singleton, Option.some_or, List.dropLast_concat,
    cString_append, List.length_append, List.length_singleton, Nat.add_sub_cancel,
    Option.bind_eq_bind, Option.bind_some, hloop]

section Sender
variable {node : Node} (h : Header node) (message : List UInt8)

theorem Node.maxMessageBytes_pos (node : Node) : 0 < node.maxMessageBytes := by
  unfold Node.maxMessageBytes Node.metadataSize protocolBytesSize aeadMetadataSize
  split <;> omega

def fragment (k : Nat) : List UInt8 :=
  transmission h message (node.transmissionsRequired message - 1 - k) (k = 0)

theorem transmissions_eq (remaining : Nat) : ∀ k,
    remaining + k = node.transmissionsRequired message - 1 →
    transmissions h message remaining (k = 0) =
      (List.range' k (remaining + 1)).map (fragment h message) := by
  induction remaining with
  | zero =>
    intro k hk
    have hplace : node.transmissionsRequired message - 1 - k = 0 := by omega
    rw [transmissions, List.range'_one, List.map_singleton, fragment, hplace]
  | succ remaining ih =>
    intro k hk
    have hplace : node.transmissionsRequired message - 1 - k = remaining + 1 := by omega
    have hnext : decide (k + 1 = 0) = false := rfl
    rw [transmissions, List.range'_succ, List.map_cons, fragment, hplace, ← ih (k + 1) (by omega),
      hnext]

theorem espnowSend_eq : espnowSend h message =
    (List.range (node.transmissionsRequired message - 1 + 1)).map (fragment h message) := by
  rw [espnowSend, List.range_eq_range']
  exact transmissions_eq h message _ 0 (Nat.add_zero _)

variable {message}

theorem transmissionsRequired_spec (hmessage : message ≠ []) :
    ∃ required, node.transmissionsRequired message = required + 1 ∧
      required * node.maxMessageBytes < message.length ∧
      message.length ≤ (required + 1) * node.maxMessageBytes := by
  have hpos := node.maxMessageBytes_pos
  have hlength := List.length_pos_iff.mpr hmessage
  refine ⟨(message.length - 1) / node.maxMessageBytes, ?_, ?_, ?_⟩
  · unfold Node.transmissionsRequired
    have hsum : message.length + node.maxMessageBytes - 1 =
        message.length - 1 + node.maxMessageBytes := by omega
    rw [hsum, Nat.add_div_right _ hpos]
  · have := Nat.div_mul_le_self (message.length - 1) node.maxMessageBytes
    omega
  · have := Nat.lt_mul_div_succ (message.length - 1) hpos
    rw [Nat.mul_comm] at this
    omega

theorem fragment_payload (hmessage : message ≠ []) {k : Nat}
    (hk : k < node.transmissionsRequired message) :
    (fragment h message k).drop node.metadataSize =
      (message.drop (k * node.maxMessageBytes)).take node.maxMessageBytes := by
  obtain ⟨required, hrequired, hlow, hhigh⟩ := @transmissionsRequired_spec node message hmessage
  have hpos := node.maxMessageBytes_pos
  have hlength := List.length_pos_iff.mpr hmessage
  have hstart : node.transmissionsRequired message -
      (node.transmissionsRequired message - 1 - k) - 1 = k := by omega
  unfold fragment transmission
  dsimp only
  rw [hstart]
  generalize hflag : (if decide (k = 0) = true then
    UInt8.ofNat (node.transmissionsRequired message - 1 - k) ||| 0x80
    else UInt8.ofNat (node.transmissionsRequired message - 1 - k)) = flag
  have hmetadata : (h.messageType :: flag :: h.mac ++ h.messageID ++
      h.aead (node.transmissionsRequired message - 1 - k)).length = node.metadataSize := by
    have := h.aeadSize (node.transmissionsRequired message - 1 - k)
    rw [← this, protocolBytesSize]
    simp only [List.length_append, List.length_cons, h.macSize, h.idSize]
  rw [List.drop_left' hmetadata]
  split
  · rfl
  · rename_i hlast
    have hplace : k = required := by omega
    subst hplace
    -- the size of the last one is what is left of the message
    have hrest : message.length - k * node.maxMessageBytes =
        if message.length % node.maxMessageBytes = 0 then node.maxMessageBytes
        else message.length % node.maxMessageBytes := by
      obtain ⟨size, hsize⟩ := Nat.exists_eq_add_of_lt hlow
      rw [Nat.add_mul] at hhigh
      have hmod : message.length % node.maxMessageBytes = (size + 1) % node.maxMessageBytes := by
        rw [hsize, Nat.add_assoc, Nat.mul_comm, Nat.mul_add_mod]
      rw [hmod]
      rcases Nat.lt_or_eq_of_le (show size + 1 ≤ node.maxMessageBytes by omega) with hless | hfull
      · rw [Nat.mod_eq_of_lt hless, if_neg (Nat.succ_ne_zero size)]
        omega
      · rw [hfull, Nat.mod_self, if_pos rfl]
        omega
    rw [Nat.add_mul] at hhigh
    rw [← hrest, List.take_of_length_le (by simp), List.take_of_length_le (by simp; omega)]

theorem flag_spec : ∀ remaining < 128, ∀ start : Bool,
    ((if start then UInt8.ofNat remaining ||| 0x80 else UInt8.ofNat remaining) &&& 0x7F).toNat =
        remaining ∧
      decide ((if start then UInt8.ofNat remaining ||| 0x80 else UInt8.ofNat remaining) &&&
        0x80 ≠ 0) = start := by
  decide +kernel

structure Reads (message : List UInt8) (k : Nat) (f : Arrival) : Prop where
  messageType : f.messageType = h.messageType
  remaining : f.transmissionsRemaining = node.transmissionsRequired message - 1 - k
  start : f.messageStart = decide (k = 0)
  mac : f.transmissionMac = h.mac
  messageID : f.messageID = h.messageID
  size : node.metadataSize ≤ f.bytes.length

theorem fragment_reads (hmany : node.transmissionsRequired message ≤ 128) {f : Arrival} {k : Nat}
    (hbytes : f.bytes = fragment h message k) : Reads h message k f := by
  have hflag := flag_spec (node.transmissionsRequired message - 1 - k) (by omega) (decide (k = 0))
  have hmetadata := h.aeadSize (node.transmissionsRequired message - 1 - k)
  have hbyte : f.remainingByte = if decide (k = 0) then
      UInt8.ofNat (node.transmissionsRequired message - 1 - k) ||| 0x80
      else UInt8.ofNat (node.transmissionsRequired message - 1 - k) := by
    rw [Arrival.remainingByte, hbytes]
    rfl
  refine ⟨?_, ?_, ?_, ?_, ?_, ?_⟩
  · rw [Arrival.messageType, hbytes]
    rfl
  · rw [Arrival.transmissionsRemaining, hbyte, hflag.1]
  · rw [Arrival.messageStart, hbyte, hflag.2]
  · rw [Arrival.transmissionMac, hbytes, fragment, transmission]
    simp [List.take_left' h.macSize]
  · rw [Arrival.messageID, hbytes, fragment, transmission]
    simp [h.macSize, h.idSize]
  · rw [hbytes, fragment, transmission, ← hmetadata, protocolBytesSize]
    simp only [List.length_append, List.length_cons, h.macSize, h.idSize]
    omega

theorem fragment_message (hmessage : message ≠ []) {f : Arrival} {k : Nat}
    (hk : k < node.transmissionsRequired message) (hbytes : f.bytes = fragment h message k) :
    f.message node =
      some ((message.drop (k * node.maxMessageBytes)).take node.maxMessageBytes) := by
  obtain ⟨required, hrequired, hlow, -⟩ := @transmissionsRequired_spec node message hmessage
  have hplace : k * node.maxMessageBytes < message.length :=
    Nat.lt_of_le_of_lt (Nat.mul_le_mul_right _ (by omega)) hlow
  rw [Arrival.message, hbytes, fragment_payload h hmessage hk]
  apply uint8ArrayToMultiString_eq
  intro hempty
  have hzero := congrArg List.length hempty
  have hpos := node.maxMessageBytes_pos
  rw [List.length_take, List.length_drop, List.length_nil] at hzero
  omega

end Sender
end Esp8266.Mesh.Espnow
