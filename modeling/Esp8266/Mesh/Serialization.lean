import Esp8266.Http.Client
import Esp8266.Mesh.EncryptedConnections
import Esp8266.Mesh.FloodingRuns
import Esp8266.Mesh.JsonTranslator

/-! What a node writes down before it goes to sleep, and reads when it is awake again. -/
namespace Esp8266.Mesh
open Esp8266.Ctype Esp8266.Delimiter Esp8266.Http Esp8266.Numeral Esp8266.Substring Esp8266.Web

def base36Char (digit : Nat) : UInt8 := UInt8.ofNat (if digit < 10 then digit + 48 else digit + 55)

/-- The loop of `uint64ToString`, for so many rounds. -/
def digitLoop (base : Nat) : Nat → Nat → List UInt8
  | 0, _ => []
  | rounds + 1, number =>
    base36Char (number % base) ::
      if number / base = 0 then [] else digitLoop base rounds (number / base)

def uint64ToString (number : UInt64) (base : Nat) : List UInt8 :=
  (digitLoop base 64 number.toNat).reverse

/-- `hexStringToUint8Array` for the six bytes of a MAC address -/
def stringToMac (node : Node) (macString : List UInt8) : Mac :=
  .ofFn fun i => UInt8.ofNat
    (charValue node (charAt macString (i.val * 2)) * 16 +
      charValue node (charAt macString (i.val * 2 + 1)))

/-- The base that `strtoul` finds, and the digits. -/
def baseOf : List UInt8 → Nat × List UInt8
  | [] => (10, [])
  | [c] => (10, [c])
  | c :: x :: rest =>
    if c ≠ 48 then (10, c :: x :: rest)
    else if x = 120 || x = 88 then (16, rest)
    else (8, c :: x :: rest)

def strtoul (text : List UInt8) : UInt32 :=
  let signed := sign (text.dropWhile isspace)
  let n := (readDigits (baseOf signed.2).1 (baseOf signed.2).2 0).1
  if 2 ^ 32 ≤ n then UInt32.ofNat (2 ^ 32 - 1)
  else if signed.1 then UInt32.ofNat (2 ^ 32 - n)
  else UInt32.ofNat n

namespace JsonTranslator

def jsonConnectionState : List UInt8 :=
  ascii ['c', 'o', 'n', 'n', 'e', 'c', 't', 'i', 'o', 'n', 'S', 't', 'a', 't', 'e']
def jsonMeshState : List UInt8 := ascii ['m', 'e', 's', 'h', 'S', 't', 'a', 't', 'e']
def jsonOwnSessionKey : List UInt8 := ascii ['o', 'w', 'n', 'S', 'K']
def jsonPeerSessionKey : List UInt8 := ascii ['p', 'e', 'e', 'r', 'S', 'K']
def jsonPeerStaMac : List UInt8 := ascii ['p', 'e', 'e', 'r', 'S', 't', 'a', 'M', 'a', 'c']
def jsonPeerApMac : List UInt8 := ascii ['p', 'e', 'e', 'r', 'A', 'p', 'M', 'a', 'c']
def jsonDuration : List UInt8 := ascii ['d', 'u', 'r', 'a', 't', 'i', 'o', 'n']
def jsonDesync : List UInt8 := ascii ['d', 'e', 's', 'y', 'n', 'c']
def jsonUnsynchronizedMessageID : List UInt8 :=
  ascii ['u', 'n', 's', 'y', 'n', 'c', 'M', 's', 'g', 'I', 'D']
def jsonMeshMessageCount : List UInt8 :=
  ascii ['m', 'e', 's', 'h', 'M', 's', 'g', 'C', 'o', 'u', 'n', 't']

def decodeNumber (jsonString valueIdentifier : List UInt8) : Option UInt32 :=
  (decode jsonString valueIdentifier).map strtoul

def decodeRadix (node : Node) (jsonString valueIdentifier : List UInt8) : Option UInt64 :=
  (decode jsonString valueIdentifier).map fun jsonValue =>
    UInt64.ofNat (stringToUint64 node jsonValue)

def getMac (node : Node) (jsonString valueIdentifier : List UInt8) : Option Mac :=
  (decode jsonString valueIdentifier).bind fun jsonValue =>
    if jsonValue.length ≠ 12 then none else some (stringToMac node jsonValue)

def getConnectionState (jsonString : List UInt8) : Option (List UInt8) :=
  decode jsonString jsonConnectionState

def getOwnSessionKey (node : Node) (jsonString : List UInt8) : Option UInt64 :=
  decodeRadix node jsonString jsonOwnSessionKey

def getPeerSessionKey (node : Node) (jsonString : List UInt8) : Option UInt64 :=
  decodeRadix node jsonString jsonPeerSessionKey

def getPeerStaMac (node : Node) (jsonString : List UInt8) : Option Mac :=
  getMac node jsonString jsonPeerStaMac

def getPeerApMac (node : Node) (jsonString : List UInt8) : Option Mac :=
  getMac node jsonString jsonPeerApMac

def getDuration (jsonString : List UInt8) : Option UInt32 := decodeNumber jsonString jsonDuration

def getDesync (jsonString : List UInt8) : Option Bool :=
  (decode jsonString jsonDesync).map fun jsonValue => strtoul jsonValue ≠ 0

def getUnsynchronizedMessageID (jsonString : List UInt8) : Option UInt32 :=
  decodeNumber jsonString jsonUnsynchronizedMessageID

def getMeshMessageCount (jsonString : List UInt8) : Option UInt16 :=
  (decodeNumber jsonString jsonMeshMessageCount).bind fun longResult =>
    if longResult > 65535 then none else some longResult.toUInt16

end JsonTranslator

namespace Serializer
open JsonTranslator

def serializeMeshState (unsyncMsgID meshMsgCount : List UInt8) : List UInt8 :=
  encode [(jsonMeshState, encode
    [(jsonConnectionState, encode [(jsonUnsynchronizedMessageID, unsyncMsgID)]),
      (jsonMeshMessageCount, meshMsgCount)])]

def serializeUnencryptedConnection (unsyncMsgID : List UInt8) : List UInt8 :=
  encode [(jsonConnectionState, encode [(jsonUnsynchronizedMessageID, unsyncMsgID)])]

def serializeEncryptedConnection (duration desync ownSK peerSK peerStaMac peerApMac : List UInt8) :
    List UInt8 :=
  if duration = [] then
    encode [(jsonConnectionState, encode
      [(jsonDesync, desync), (jsonOwnSessionKey, ownSK), (jsonPeerSessionKey, peerSK),
        (jsonPeerStaMac, peerStaMac), (jsonPeerApMac, peerApMac)])]
  else
    encode [(jsonConnectionState, encode
      [(jsonDuration, duration), (jsonDesync, desync), (jsonOwnSessionKey, ownSK),
        (jsonPeerSessionKey, peerSK), (jsonPeerStaMac, peerStaMac), (jsonPeerApMac, peerApMac)])]

end Serializer

/-- A decimal number, as `String` makes it. -/
def ofNumber (n : Nat) : List UInt8 := numeral 10 n

def ExpiringTimeTracker.remainingDuration (tracker : ExpiringTimeTracker) (now : Nat) : UInt32 :=
  if tracker.expired now then 0
  else UInt32.ofNat (tracker.timeout + 2 ^ 32 - tracker.elapsedTime now)

namespace EncryptedConnectionLog

def serialize (now : Nat) (connection : EncryptedConnectionLog) : List UInt8 :=
  Serializer.serializeEncryptedConnection
    (match connection.timeTracker with
      | some tracker => ofNumber (tracker.remainingDuration now).toNat
      | none => [])
    (ofNumber (if connection.desync then 1 else 0)) (uint64ToString connection.ownSessionKey 16)
    (uint64ToString connection.peerSessionKey 16) (hexString connection.peerStaMac.toList)
    (hexString connection.peerApMac.toList)

end EncryptedConnectionLog

structure SerializedConnection where
  desync : Bool
  ownSessionKey : UInt64
  peerSessionKey : UInt64
  peerStaMac : Mac
  peerApMac : Mac
  duration : Option UInt32

def readConnection (node : Node) (serializedConnectionState : List UInt8) (ignoreDuration : Bool) :
    Option SerializedConnection :=
  open JsonTranslator in do
    let desync ← getDesync serializedConnectionState
    let ownSessionKey ← getOwnSessionKey node serializedConnectionState
    let peerSessionKey ← getPeerSessionKey node serializedConnectionState
    let peerStaMac ← getPeerStaMac node serializedConnectionState
    let peerApMac ← getPeerApMac node serializedConnectionState
    let duration := if ignoreDuration then none else getDuration serializedConnectionState
    some ⟨desync, ownSessionKey, peerSessionKey, peerStaMac, peerApMac, duration⟩

def acceptsPassword (newMeshPassword : List UInt8) : Bool :=
  8 ≤ newMeshPassword.length && newMeshPassword.length ≤ 64 && indexOf newMeshPassword 34 0 = -1

structure MeshState where
  mesh : FloodingMesh
  unsynchronizedMessageID : UInt32
  meshPassword : List UInt8
  accepted : acceptsPassword meshPassword

namespace MeshState
open JsonTranslator

def setMeshPassword (newMeshPassword : List UInt8) (s : MeshState) : Option MeshState :=
  if h : acceptsPassword newMeshPassword then
    some { s with meshPassword := newMeshPassword, accepted := h }
  else none

def serializeMeshState (s : MeshState) : List UInt8 :=
  let connectionState := Serializer.serializeUnencryptedConnection
    (ofNumber s.unsynchronizedMessageID.toNat)
  let unsyncMsgID := (getUnsynchronizedMessageID connectionState).getD 0
  Serializer.serializeMeshState (ofNumber unsyncMsgID.toNat) (ofNumber s.mesh.messageCount.toNat)

def loadMeshState (serializedMeshState : List UInt8) (s : MeshState) : Bool × MeshState :=
  let messageCount := getMeshMessageCount serializedMeshState
  let unsynchronizedMessageID :=
    (getConnectionState serializedMeshState).bind getUnsynchronizedMessageID
  (messageCount.isSome && unsynchronizedMessageID.isSome,
    { s with
      mesh := { s.mesh with messageCount := messageCount.getD s.mesh.messageCount }
      unsynchronizedMessageID := unsynchronizedMessageID.getD s.unsynchronizedMessageID })

end MeshState

section Numbers
variable (node : Node)

theorem charValue_base36 {digit : Nat} (h : digit < 36) :
    charValue node (base36Char digit) = digit := by
  have hall : ∀ d < 36, digitValue (base36Char d) = some d := by decide
  simp [charValue, hall digit h]

theorem read_digitLoop {base : Nat} (hbase : 1 < base) (hlarge : base ≤ 36) (rounds number : Nat)
    (hrounds : number < base ^ rounds) (hnumber : number < 2 ^ 64) :
    (digitLoop base rounds number).foldr
      (fun c result => (result * base + charValue node c) % 2 ^ 64) 0 = number := by
  induction rounds generalizing number with
  | zero =>
    rw [Nat.pow_zero, Nat.lt_one_iff] at hrounds
    rw [hrounds]
    rfl
  | succ rounds ih =>
    have hdigit : number % base < 36 := by
      have hmod := Nat.mod_lt number (show 0 < base by omega)
      omega
    have hrest : (if number / base = 0 then [] else digitLoop base rounds (number / base)).foldr
        (fun c result => (result * base + charValue node c) % 2 ^ 64) 0 = number / base := by
      split
      · rename_i hzero
        rw [hzero]
        rfl
      · apply ih
        · rw [Nat.pow_succ, Nat.mul_comm] at hrounds
          exact Nat.div_lt_of_lt_mul hrounds
        · exact Nat.lt_of_le_of_lt (Nat.div_le_self number base) hnumber
    have hsplit : number / base * base + number % base = number := by
      rw [Nat.mul_comm]
      exact Nat.div_add_mod number base
    rw [digitLoop, List.foldr_cons, hrest, charValue_base36 node hdigit, hsplit,
      Nat.mod_eq_of_lt hnumber]

theorem read_uint64ToString {base : Nat} (hbase : 1 < base) (hlarge : base ≤ 36)
    (number : UInt64) :
    (uint64ToString number base).foldl
      (fun result c => (result * base + charValue node c) % 2 ^ 64) 0 = number.toNat := by
  have hrounds : number.toNat < base ^ 64 := by
    have hpow : 2 ^ 64 ≤ base ^ 64 := Nat.pow_le_pow_left hbase 64
    have hlt := number.toNat_lt
    omega
  rw [uint64ToString, List.foldl_reverse]
  exact read_digitLoop node hbase hlarge 64 number.toNat hrounds number.toNat_lt

theorem stringToUint64_uint64ToString (number : UInt64) :
    stringToUint64 node (uint64ToString number 16) = number.toNat :=
  read_uint64ToString node (by decide) (by decide) number

theorem numeral_head {n : Nat} (h : n ≠ 0) : (numeral 10 n).head? ≠ some 48 := by
  induction n using Nat.strongRecOn with
  | ind n ih =>
    by_cases hlt : n < 10
    · have hall : ∀ d < 10, d ≠ 0 → digitByte d ≠ 48 := by decide
      rw [numeral_of_lt hlt]
      simpa using hall n hlt h
    · have hdiv : n / 10 ≠ 0 := by omega
      have hrest := ih (n / 10) (by omega) hdiv
      obtain ⟨first, others, htext⟩ := List.exists_cons_of_ne_nil
        (numeral_ne_nil (show 1 < 10 by decide) (n / 10))
      rw [numeral_of_le (by decide) (Nat.le_of_not_lt hlt), htext]
      rw [htext] at hrest
      exact hrest

theorem strtoul_ofNumber {n : Nat} (h : n < 2 ^ 32) : strtoul (ofNumber n) = UInt32.ofNat n := by
  by_cases hzero : n = 0
  · subst hzero
    decide
  · obtain ⟨first, others, htext⟩ := List.exists_cons_of_ne_nil
      (numeral_ne_nil (show 1 < 10 by decide) n)
    have hread := readDigits_numeral (show 1 < 10 by decide) (by decide) n
    have hhead := numeral_head hzero
    obtain ⟨d, hvalue, -⟩ := readDigits_digits hread first (htext ▸ List.mem_cons_self)
    rw [htext, List.head?_cons, Ne, Option.some.injEq] at hhead
    rw [htext] at hread
    have hplain := sign_digits hvalue others
    have hbase : baseOf (first :: others) = (10, first :: others) := by
      cases others with
      | nil => rfl
      | cons second others => rw [baseOf, if_pos hhead]
    rw [ofNumber, htext, strtoul]
    simp only [hplain, hbase, hread]
    rw [if_neg (Nat.not_le_of_lt h)]
    rfl

end Numbers

section Digits

def Digits (text : List UInt8) : Prop := ∀ c ∈ text, 48 ≤ c ∧ c ≤ 90

theorem Digits.not_mem {text : List UInt8} (h : Digits text) {c : UInt8} (hc : ¬ (48 ≤ c ∧ c ≤ 90)) :
    c ∉ text := fun hmem => hc (h c hmem)

theorem Digits.head {text : List UInt8} (h : Digits text) : text.head? ≠ some 123 :=
  fun hbrace => h.not_mem (by decide) (List.mem_of_mem_head? hbrace)

theorem digits_uint64ToString (number : UInt64) : Digits (uint64ToString number 16) := by
  have hall : ∀ d < 16, 48 ≤ base36Char d ∧ base36Char d ≤ 90 := by decide
  have hloop : ∀ rounds number, Digits (digitLoop 16 rounds number) := by
    intro rounds
    induction rounds with
    | zero => exact fun _ _ hc => absurd hc List.not_mem_nil
    | succ rounds ih =>
      intro number c hc
      rw [digitLoop, List.mem_cons] at hc
      cases hc with
      | inl hfirst =>
        rw [hfirst]
        exact hall _ (Nat.mod_lt number (by decide))
      | inr hrest =>
        split at hrest
        · cases hrest
        · exact ih _ c hrest
  intro c hc
  exact hloop 64 number.toNat c (List.mem_reverse.mp hc)

theorem digits_ofNumber (n : Nat) : Digits (ofNumber n) := by
  have hall : ∀ d < 10, 48 ≤ digitByte d ∧ digitByte d ≤ 90 := by decide
  intro c hc
  obtain ⟨d, hd, rfl⟩ := mem_numeral (by decide) n c hc
  exact hall d hd

theorem digits_hexString (bytes : List UInt8) : Digits (hexString bytes) := by
  have hall : ∀ n < 256, [UInt8.ofNat n / 16, UInt8.ofNat n % 16].all (fun digit =>
      let c := if digit < 10 then digit + 48 else digit + 55
      48 ≤ c && c ≤ 90) = true := by
    decide +kernel
  intro c hc
  obtain ⟨byte, -, hbyte⟩ := List.mem_flatMap.mp hc
  obtain ⟨digit, hdigit, rfl⟩ := List.mem_map.mp hbyte
  have hdigits := List.all_eq_true.mp (hall byte.toNat byte.toNat_lt) digit
  rw [UInt8.ofNat_toNat] at hdigits
  simpa using hdigits hdigit

theorem hexString_length (bytes : List UInt8) : (hexString bytes).length = bytes.length * 2 := by
  induction bytes with
  | nil => rfl
  | cons byte bytes ih =>
    rw [hexString, List.flatMap_cons, List.length_append, ← hexString, ih]
    simp only [List.length_map, List.length_cons, List.length_nil]
    omega

theorem charAt_hexString (bytes : List UInt8) (i : Nat) (hi : i < bytes.length) :
    [charAt (hexString bytes) (i * 2), charAt (hexString bytes) (i * 2 + 1)] =
      [bytes[i] / 16, bytes[i] % 16].map fun digit =>
        if digit < 10 then digit + 48 else digit + 55 := by
  induction bytes generalizing i with
  | nil => cases hi
  | cons byte bytes ih =>
    cases i with
    | zero => rfl
    | succ i =>
      rw [show (i + 1) * 2 = i * 2 + 1 + 1 by omega]
      exact ih i (Nat.lt_of_succ_lt_succ hi)

theorem stringToMac_hexString (node : Node) (mac : Mac) :
    stringToMac node (hexString mac.toList) = mac := by
  ext i hi
  have hlength : i < mac.toList.length := by simpa using hi
  have hchars := charAt_hexString mac.toList i hlength
  have hvalues := charValue_hex node mac.toList[i]
  have hbyte : mac.toList[i] = mac[i] := by simp
  simp only [List.map_cons, List.map_nil, List.cons.injEq, and_true, hbyte] at hchars hvalues
  simp only [stringToMac, Vector.getElem_ofFn, hchars.1, hchars.2, hvalues.1, hvalues.2]
  rw [Nat.mul_comm, Nat.div_add_mod, UInt8.ofNat_toNat]

end Digits

section Written
open JsonTranslator

def Punctuation (text : List UInt8) : Prop := ∀ c ∈ text, c = 44 ∨ c = 58 ∨ c = 123 ∨ c = 125

structure IsName (name : List UInt8) : Prop where
  quote : 34 ∉ name
  nul : 0 ∉ name
  letter : name.any (fun c => 97 ≤ c && c ≤ 122) = true

structure Written (items : List (List UInt8 × List UInt8)) (last : List UInt8) : Prop where
  before : ∀ item ∈ items, Punctuation item.1
  text : ∀ item ∈ items, IsName item.2 ∨ Digits item.2
  last : Punctuation last

def Numbers (fields : List (List UInt8 × List UInt8)) : Prop :=
  ∀ field ∈ fields, IsName field.1 ∧ Digits field.2

variable {identifier value last : List UInt8} {all after : List (List UInt8 × List UInt8)}
  {fields : List (List UInt8 × List UInt8)}

theorem Punctuation.not_mem {text : List UInt8} (h : Punctuation text) {c : UInt8}
    (hc : ¬ (c = 44 ∨ c = 58 ∨ c = 123 ∨ c = 125)) : c ∉ text := fun hmem => hc (h c hmem)

theorem IsName.not_punctuation (h : IsName identifier) : ¬ Punctuation identifier := by
  intro hall
  obtain ⟨c, hc, hletter⟩ := List.any_eq_true.mp h.letter
  rcases hall c hc with rfl | rfl | rfl | rfl <;> exact absurd hletter (by decide)

theorem IsName.not_digits (h : IsName identifier) : ¬ Digits identifier := by
  intro hall
  obtain ⟨c, hc, hletter⟩ := List.any_eq_true.mp h.letter
  rw [Bool.and_eq_true, decide_eq_true_iff] at hletter
  have hge := UInt8.le_iff_toNat_le.mp hletter.1
  have hle := UInt8.le_iff_toNat_le.mp (hall c hc).2
  exact absurd (Nat.le_trans hge hle) (by decide)

theorem text_not_mem {text : List UInt8} (h : IsName text ∨ Digits text) : 34 ∉ text ∧ 0 ∉ text := by
  cases h with
  | inl hname => exact ⟨hname.quote, hname.nul⟩
  | inr hdigits => exact ⟨hdigits.not_mem (by decide), hdigits.not_mem (by decide)⟩

theorem Written.searchable (h : Written all last) (hid : IsName identifier) :
    Searchable identifier all last where
  name := hid.quote
  before := fun item hitem => (h.before item hitem).not_mem (by decide)
  text := fun item hitem => (text_not_mem (h.text item hitem)).1
  distinct := fun item hitem hsame => hid.not_punctuation (hsame ▸ h.before item hitem)
  last := h.last.not_mem (by decide)

theorem Written.nul (h : Written all last) : 0 ∉ strings all last := by
  intro hmem
  rcases mem_strings hmem with hquote | hlast | ⟨item, hitem, hbefore | htext⟩
  · exact absurd hquote (by decide)
  · exact h.last.not_mem (by decide) hlast
  · exact (h.before item hitem).not_mem (by decide) hbefore
  · exact (text_not_mem (h.text item hitem)).2 htext

theorem Written.cons {before text : List UInt8} (h : Written all last) (hbefore : Punctuation before)
    (htext : IsName text ∨ Digits text) : Written ((before, text) :: all) last where
  before := List.forall_mem_cons.mpr ⟨hbefore, h.before⟩
  text := List.forall_mem_cons.mpr ⟨htext, h.text⟩
  last := h.last

theorem written_items {before : List UInt8} (hbefore : Punctuation before)
    (hlast : Punctuation last) (hfields : Numbers fields) : Written (items before fields) last where
  before := by
    intro item hitem
    rcases (mem_items hitem).1 with h | h | h
    · exact h ▸ hbefore
    · simp [h, Punctuation]
    · simp [h, Punctuation]
  text := by
    intro item hitem
    obtain ⟨-, field, hfield, h | h⟩ := mem_items hitem
    · exact .inl (h ▸ (hfields field hfield).1)
    · exact .inr (h ▸ (hfields field hfield).2)
  last := hlast

theorem Numbers.plain (h : Numbers fields) : Plain fields :=
  fun field hfield => (h field hfield).2.head

theorem encode_members {members : List UInt8} (h : fields.flatMap member = members ++ [44]) :
    encode fields = 123 :: members ++ [125] := by
  rw [encode, h, ← List.cons_append, List.dropLast_concat]

theorem encode_object (name : List UInt8) {object : List UInt8} (hobject : object.head? = some 123) :
    encode [(name, object)] = 123 :: 34 :: (name ++ 34 :: 58 :: (object ++ [125])) := by
  have hmember : [(name, object)].flatMap member = 34 :: (name ++ 34 :: 58 :: object) ++ [44] := by
    simp [member, hobject]
  rw [encode_members hmember]
  simp

theorem encode_nested (name : List UInt8) (hfields : fields ≠ []) (hplain : Plain fields) :
    encode [(name, encode fields)] = strings (([123], name) :: items [58, 123] fields) [125, 125] := by
  obtain ⟨field, others, rfl⟩ := List.exists_cons_of_ne_nil hfields
  rw [encode_strings hfields hplain, encode_object name rfl, strings_append]
  rfl

theorem decode_nested {name : List UInt8} (hname : IsName name) (hfields : Numbers fields)
    (hid : IsName identifier) (hne : name ≠ identifier)
    (hlookup : fields.lookup identifier = some value) :
    decode (encode [(name, encode fields)]) identifier = some value := by
  have hnonempty : fields ≠ [] := by
    rintro rfl
    cases hlookup
  have hvalue : Digits value := by
    obtain ⟨front, back, rfl, -⟩ := List.lookup_eq_some_iff.mp hlookup
    exact (hfields (identifier, value) (by simp)).2
  have hinner : Written (items [58, 123] fields) [125, 125] :=
    written_items (by simp [Punctuation]) (by simp [Punctuation]) hfields
  have hwritten : Written (([123], name) :: items [58, 123] fields) [125, 125] :=
    hinner.cons (by simp [Punctuation]) (.inl hname)
  obtain ⟨after, hnamed⟩ := @named_of_lookup _ _ [58, 123] _ hlookup
  rw [encode_nested name hnonempty hfields.plain]
  have hall : Named identifier (([58], value) :: after) (([123], name) :: items [58, 123] fields) := by
    obtain ⟨field, others, rfl⟩ := List.exists_cons_of_ne_nil hnonempty
    exact .later (.inl hne) hnamed
  exact decode_named hall (hwritten.searchable hid) (hvalue.not_mem (by decide)) hid.nul hwritten.nul

theorem decode_absent (h : Written all last) (hid : IsName identifier)
    (habsent : ∀ item ∈ all, item.2 ≠ identifier) : decode (strings all last) identifier = none := by
  have hbehind : behind (mark identifier) (strings all last) = none := by
    have hsearchable := h.searchable hid
    clear h
    induction all with
    | nil =>
      rw [behind, Option.map_eq_none_iff, strings]
      cases hfirst : firstIndex (mark identifier) last with
      | none => rfl
      | some i =>
        have hquote : 34 ∈ mark identifier := List.mem_cons_self
        have hmem := (firstIndex_some hfirst).1.subset hquote
        exact absurd (List.mem_of_mem_drop hmem) hsearchable.last
    | cons item all ih =>
      rw [behind_strings hsearchable, if_neg (fun hhere => habsent item List.mem_cons_self hhere.1.symm)]
      exact ih (fun x hx => habsent x (List.mem_cons_of_mem _ hx)) hsearchable.tail
  rw [decode_eq h.nul hid.nul, hbehind]
  rfl

end Written

section Restored
open JsonTranslator

theorem isName_connectionState : IsName jsonConnectionState := by constructor <;> decide
theorem isName_meshState : IsName jsonMeshState := by constructor <;> decide
theorem isName_ownSessionKey : IsName jsonOwnSessionKey := by constructor <;> decide
theorem isName_peerSessionKey : IsName jsonPeerSessionKey := by constructor <;> decide
theorem isName_peerStaMac : IsName jsonPeerStaMac := by constructor <;> decide
theorem isName_peerApMac : IsName jsonPeerApMac := by constructor <;> decide
theorem isName_duration : IsName jsonDuration := by constructor <;> decide
theorem isName_desync : IsName jsonDesync := by constructor <;> decide
theorem isName_unsynchronizedMessageID : IsName jsonUnsynchronizedMessageID := by
  constructor <;> decide
theorem isName_meshMessageCount : IsName jsonMeshMessageCount := by constructor <;> decide

namespace EncryptedConnectionLog
variable (now : Nat) (connection : EncryptedConnectionLog)

def permanentFields : List (List UInt8 × List UInt8) :=
  [(jsonDesync, ofNumber (if connection.desync then 1 else 0)),
    (jsonOwnSessionKey, uint64ToString connection.ownSessionKey 16),
    (jsonPeerSessionKey, uint64ToString connection.peerSessionKey 16),
    (jsonPeerStaMac, hexString connection.peerStaMac.toList),
    (jsonPeerApMac, hexString connection.peerApMac.toList)]

def durationField : List (List UInt8 × List UInt8) :=
  match connection.timeTracker with
  | some tracker => [(jsonDuration, ofNumber (tracker.remainingDuration now).toNat)]
  | none => []

theorem serialize_eq : connection.serialize now =
    encode [(jsonConnectionState, encode (connection.durationField now ++ connection.permanentFields))] := by
  unfold serialize durationField Serializer.serializeEncryptedConnection
  cases connection.timeTracker with
  | none => rfl
  | some tracker =>
    have hduration : ofNumber (tracker.remainingDuration now).toNat ≠ [] :=
      numeral_ne_nil (by decide) _
    simp only [if_neg hduration]
    rfl

theorem permanentFields_numbers : Numbers connection.permanentFields := by
  unfold permanentFields Numbers
  simp only [List.forall_mem_cons]
  exact ⟨⟨isName_desync, digits_ofNumber _⟩, ⟨isName_ownSessionKey, digits_uint64ToString _⟩,
    ⟨isName_peerSessionKey, digits_uint64ToString _⟩, ⟨isName_peerStaMac, digits_hexString _⟩,
    ⟨isName_peerApMac, digits_hexString _⟩, fun _ h => absurd h List.not_mem_nil⟩

theorem fields_numbers :
    Numbers (connection.durationField now ++ connection.permanentFields) := by
  unfold durationField
  cases connection.timeTracker with
  | none => exact connection.permanentFields_numbers
  | some tracker =>
    exact List.forall_mem_cons.mpr ⟨⟨isName_duration, digits_ofNumber _⟩,
      connection.permanentFields_numbers⟩

theorem decode_serialize {identifier value : List UInt8} (hid : IsName identifier)
    (hne : jsonConnectionState ≠ identifier) (hduration : identifier ≠ jsonDuration)
    (hlookup : connection.permanentFields.lookup identifier = some value) :
    decode (connection.serialize now) identifier = some value := by
  rw [serialize_eq]
  apply decode_nested isName_connectionState (connection.fields_numbers now) hid hne
  unfold durationField
  cases connection.timeTracker with
  | none => exact hlookup
  | some tracker =>
    rw [List.cons_append, List.lookup_cons, beq_eq_false_iff_ne.mpr hduration]
    exact hlookup

theorem decode_duration : decode (connection.serialize now) jsonDuration =
    connection.timeTracker.map fun tracker => ofNumber (tracker.remainingDuration now).toNat := by
  have hall := connection.fields_numbers now
  rw [serialize_eq]
  unfold durationField at hall ⊢
  cases htracker : connection.timeTracker with
  | none =>
    have hnumbers := connection.permanentFields_numbers
    have hnonempty : connection.permanentFields ≠ [] := List.cons_ne_nil _ _
    rw [List.nil_append, encode_nested _ hnonempty hnumbers.plain]
    apply decode_absent
    · exact (written_items (by simp [Punctuation]) (by simp [Punctuation]) hnumbers).cons
        (by simp [Punctuation]) (.inl isName_connectionState)
    · exact isName_duration
    · intro item hitem
      rw [List.mem_cons] at hitem
      rcases hitem with rfl | hitem
      · decide
      · obtain ⟨-, field, hfield, htext | htext⟩ := mem_items hitem
        · have hnames : connection.permanentFields.all (·.1 ≠ jsonDuration) = true := rfl
          rw [htext]
          simpa using List.all_eq_true.mp hnames field hfield
        · intro hsame
          exact isName_duration.not_digits (hsame ▸ htext ▸ (hnumbers field hfield).2)
  | some tracker =>
    rw [htracker] at hall
    exact decode_nested isName_connectionState hall isName_duration (by decide) rfl

end EncryptedConnectionLog

theorem readConnection_serialize (node : Node) (now : Nat) (connection : EncryptedConnectionLog)
    (ignoreDuration : Bool) :
    readConnection node (connection.serialize now) ignoreDuration =
      some ⟨connection.desync, connection.ownSessionKey, connection.peerSessionKey,
        connection.peerStaMac, connection.peerApMac,
        if ignoreDuration then none
        else connection.timeTracker.map (·.remainingDuration now)⟩ := by
  have hdesync : getDesync (connection.serialize now) = some connection.desync := by
    have hread := connection.decode_serialize now isName_desync (by decide) (by decide) rfl
    rw [getDesync, hread, Option.map_some, strtoul_ofNumber (by split <;> decide)]
    cases connection.desync <;> rfl
  have hown : getOwnSessionKey node (connection.serialize now) = some connection.ownSessionKey := by
    have hread := connection.decode_serialize now isName_ownSessionKey (by decide) (by decide) rfl
    rw [getOwnSessionKey, decodeRadix, hread, Option.map_some, stringToUint64_uint64ToString,
      UInt64.ofNat_toNat]
  have hpeer : getPeerSessionKey node (connection.serialize now) =
      some connection.peerSessionKey := by
    have hread := connection.decode_serialize now isName_peerSessionKey (by decide) (by decide) rfl
    rw [getPeerSessionKey, decodeRadix, hread, Option.map_some, stringToUint64_uint64ToString,
      UInt64.ofNat_toNat]
  have hmac : ∀ mac : Mac, ¬ (hexString mac.toList).length ≠ 12 := by
    intro mac
    rw [hexString_length, Vector.length_toList]
    decide
  have hsta : getPeerStaMac node (connection.serialize now) = some connection.peerStaMac := by
    have hread := connection.decode_serialize now isName_peerStaMac (by decide) (by decide) rfl
    rw [getPeerStaMac, getMac, hread, Option.bind_some, if_neg (hmac _), stringToMac_hexString]
  have hap : getPeerApMac node (connection.serialize now) = some connection.peerApMac := by
    have hread := connection.decode_serialize now isName_peerApMac (by decide) (by decide) rfl
    rw [getPeerApMac, getMac, hread, Option.bind_some, if_neg (hmac _), stringToMac_hexString]
  have hduration : getDuration (connection.serialize now) =
      connection.timeTracker.map (·.remainingDuration now) := by
    rw [getDuration, decodeNumber, connection.decode_duration now, Option.map_map]
    congr 1
    ext tracker
    rw [Function.comp_apply, strtoul_ofNumber (UInt32.toNat_lt _), UInt32.ofNat_toNat]
  unfold readConnection
  simp only [hdesync, hown, hpeer, hsta, hap, hduration, Option.bind_eq_bind, Option.bind_some]

def meshItems (unsyncMsgID meshMsgCount : List UInt8) : List (List UInt8 × List UInt8) :=
  [([123], jsonMeshState), ([58, 123], jsonConnectionState),
    ([58, 123], jsonUnsynchronizedMessageID), ([58], unsyncMsgID),
    ([125, 44], jsonMeshMessageCount), ([58], meshMsgCount)]

section Mesh
variable {unsyncMsgID meshMsgCount : List UInt8}

theorem serializeMeshState_eq (hid : Digits unsyncMsgID) (hcount : Digits meshMsgCount) :
    Serializer.serializeMeshState unsyncMsgID meshMsgCount =
      strings (meshItems unsyncMsgID meshMsgCount) [125, 125] := by
  have hobject : encode [(jsonUnsynchronizedMessageID, unsyncMsgID)] =
      strings [([123], jsonUnsynchronizedMessageID), ([58], unsyncMsgID)] [125] :=
    encode_strings (by simp) (by simp [JsonTranslator.Plain, hid.head])
  have hmembers : [(jsonConnectionState, encode [(jsonUnsynchronizedMessageID, unsyncMsgID)]),
      (jsonMeshMessageCount, meshMsgCount)].flatMap member =
      strings [([], jsonConnectionState), ([58, 123], jsonUnsynchronizedMessageID),
        ([58], unsyncMsgID), ([125, 44], jsonMeshMessageCount), ([58], meshMsgCount)] [] ++ [44] := by
    simp [member, hobject, strings, hcount.head]
  rw [Serializer.serializeMeshState, encode_members hmembers, encode_object _ rfl]
  simp [strings, meshItems]

theorem written_meshItems (hid : Digits unsyncMsgID) (hcount : Digits meshMsgCount) :
    Written (meshItems unsyncMsgID meshMsgCount) [125, 125] where
  before := by simp [meshItems, Punctuation]
  text := by
    simp only [meshItems, List.forall_mem_cons]
    exact ⟨.inl isName_meshState, .inl isName_connectionState,
      .inl isName_unsynchronizedMessageID, .inr hid, .inl isName_meshMessageCount, .inr hcount,
      fun _ h => absurd h List.not_mem_nil⟩
  last := by simp [Punctuation]

theorem decode_messageCount (hid : Digits unsyncMsgID) (hcount : Digits meshMsgCount) :
    decode (strings (meshItems unsyncMsgID meshMsgCount) [125, 125]) jsonMeshMessageCount =
      some meshMsgCount := by
  have hwritten := written_meshItems hid hcount
  have hnamed : Named jsonMeshMessageCount [([58], meshMsgCount)]
      (meshItems unsyncMsgID meshMsgCount) :=
    .later (.inl (by decide)) (.later (.inl (by decide)) (.later (.inl (by decide))
      (.later (.inr (by decide)) (.here _ rfl))))
  exact decode_named hnamed (hwritten.searchable isName_meshMessageCount)
    (hcount.not_mem (by decide)) isName_meshMessageCount.nul hwritten.nul

theorem braceLoop_field {name : List UInt8} (hname : 34 ∉ name) (hid : 34 ∉ unsyncMsgID)
    (rest : List UInt8) :
    braceLoop (34 :: (name ++ 34 :: 58 :: 34 :: (unsyncMsgID ++ 34 :: 125 :: rest))) 1 false =
      some (name.length + unsyncMsgID.length + 5) := by
  have hcolon : braceLoop (58 :: 34 :: (unsyncMsgID ++ 34 :: 125 :: rest)) 1 false =
      (braceLoop (34 :: (unsyncMsgID ++ 34 :: 125 :: rest)) 1 false).map (· + 1) := rfl
  have hend : braceLoop (125 :: rest) 1 false = some 0 := rfl
  rw [braceLoop_text hname, hcolon, braceLoop_text hid, hend]
  simp only [Option.map_some, Option.some.injEq]
  omega

theorem decode_connectionState (hid : Digits unsyncMsgID) (hcount : Digits meshMsgCount) :
    decode (strings (meshItems unsyncMsgID meshMsgCount) [125, 125]) jsonConnectionState =
      some (encode [(jsonUnsynchronizedMessageID, unsyncMsgID)]) := by
  have hwritten := written_meshItems hid hcount
  have hnamed : Named jsonConnectionState ((meshItems unsyncMsgID meshMsgCount).drop 2)
      (meshItems unsyncMsgID meshMsgCount) := .later (.inl (by decide)) (.here _ rfl)
  have hobject : encode [(jsonUnsynchronizedMessageID, unsyncMsgID)] =
      strings [([123], jsonUnsynchronizedMessageID), ([58], unsyncMsgID)] [125] :=
    encode_strings (by simp) (by simp [JsonTranslator.Plain, hid.head])
  have hbehind : (strings ((meshItems unsyncMsgID meshMsgCount).drop 2) [125, 125]).drop 1 =
      123 :: 34 :: (jsonUnsynchronizedMessageID ++ 34 :: 58 :: 34 :: (unsyncMsgID ++ 34 :: 125 ::
        44 :: strings [([], jsonMeshMessageCount), ([58], meshMsgCount)] [125, 125])) := by
    simp [meshItems, strings]
  generalize 44 :: strings [([], jsonMeshMessageCount), ([58], meshMsgCount)] [125, 125] = rest
    at hbehind
  have hfield := @braceLoop_field unsyncMsgID _ isName_unsynchronizedMessageID.quote
    (hid.not_mem (by decide)) rest
  rw [decode_eq hwritten.nul isName_connectionState.nul,
    behind_named hnamed (hwritten.searchable isName_connectionState), Option.bind_some, hbehind,
    valueAt, if_neg (by decide), if_pos rfl, hfield, Option.map_some, hobject]
  have hsplit : 34 :: (jsonUnsynchronizedMessageID ++ 34 :: 58 :: 34 ::
      (unsyncMsgID ++ 34 :: 125 :: rest)) = 34 :: (jsonUnsynchronizedMessageID ++ 34 :: 58 :: 34 ::
      (unsyncMsgID ++ [34, 125])) ++ rest := by simp
  rw [hsplit, List.take_left']
  · simp [strings]
  · simp
    omega

theorem decode_messageID (hid : Digits unsyncMsgID) :
    decode (encode [(jsonUnsynchronizedMessageID, unsyncMsgID)]) jsonUnsynchronizedMessageID =
      some unsyncMsgID := by
  have hnumbers : Numbers [(jsonUnsynchronizedMessageID, unsyncMsgID)] :=
    List.forall_mem_singleton.mpr ⟨isName_unsynchronizedMessageID, hid⟩
  have hwritten : Written (items [123] [(jsonUnsynchronizedMessageID, unsyncMsgID)]) [125] :=
    written_items (by simp [Punctuation]) (by simp [Punctuation]) hnumbers
  rw [encode_strings (by simp) hnumbers.plain]
  exact decode_named (.here [123] rfl) (hwritten.searchable isName_unsynchronizedMessageID)
    (hid.not_mem (by decide)) isName_unsynchronizedMessageID.nul hwritten.nul

theorem unencrypted_messageID (unsyncMsgID : UInt32) :
    getUnsynchronizedMessageID
      (Serializer.serializeUnencryptedConnection (ofNumber unsyncMsgID.toNat)) = some unsyncMsgID := by
  have hnumbers : Numbers [(jsonUnsynchronizedMessageID, ofNumber unsyncMsgID.toNat)] :=
    List.forall_mem_singleton.mpr ⟨isName_unsynchronizedMessageID, digits_ofNumber _⟩
  have hread : decode (Serializer.serializeUnencryptedConnection (ofNumber unsyncMsgID.toNat))
      jsonUnsynchronizedMessageID = some (ofNumber unsyncMsgID.toNat) :=
    decode_nested isName_connectionState hnumbers isName_unsynchronizedMessageID (by decide) rfl
  rw [getUnsynchronizedMessageID, decodeNumber, hread, Option.map_some,
    strtoul_ofNumber (UInt32.toNat_lt _), UInt32.ofNat_toNat]

theorem loadMeshState_serializeMeshState (s loading : MeshState) :
    loading.loadMeshState s.serializeMeshState =
      (true, { loading with
        mesh := { loading.mesh with messageCount := s.mesh.messageCount }
        unsynchronizedMessageID := s.unsynchronizedMessageID }) := by
  have hid := digits_ofNumber s.unsynchronizedMessageID.toNat
  have hcount := digits_ofNumber s.mesh.messageCount.toNat
  have htext : s.serializeMeshState = strings (meshItems (ofNumber s.unsynchronizedMessageID.toNat)
      (ofNumber s.mesh.messageCount.toNat)) [125, 125] := by
    unfold MeshState.serializeMeshState
    simp only [unencrypted_messageID, Option.getD_some]
    exact serializeMeshState_eq hid hcount
  have hsmall : s.mesh.messageCount.toNat < 2 ^ 16 := s.mesh.messageCount.toNat_lt
  have hsize : s.mesh.messageCount.toNat < UInt32.size := Nat.lt_trans hsmall (by decide)
  have hload : getMeshMessageCount s.serializeMeshState = some s.mesh.messageCount := by
    rw [getMeshMessageCount, decodeNumber, htext, decode_messageCount hid hcount, Option.map_some,
      strtoul_ofNumber (by omega), Option.bind_some]
    have hfits : ¬ UInt32.ofNat s.mesh.messageCount.toNat > 65535 := by
      rw [gt_iff_lt, UInt32.lt_iff_toNat_lt, UInt32.toNat_ofNat_of_lt' hsize]
      exact Nat.not_lt_of_le (Nat.le_of_lt_succ hsmall)
    rw [if_neg hfits]
    congr 1
    apply UInt16.toNat_inj.mp
    rw [UInt32.toNat_toUInt16, UInt32.toNat_ofNat_of_lt' hsize, Nat.mod_eq_of_lt hsmall]
  have hconnection : (getConnectionState s.serializeMeshState).bind getUnsynchronizedMessageID =
      some s.unsynchronizedMessageID := by
    rw [getConnectionState, htext, decode_connectionState hid hcount, Option.bind_some,
      getUnsynchronizedMessageID, decodeNumber, decode_messageID hid, Option.map_some,
      strtoul_ofNumber (UInt32.toNat_lt _), UInt32.ofNat_toNat]
  unfold MeshState.loadMeshState
  rw [hload, hconnection]
  rfl

end Mesh

/-- What is serialized is restored, but for the password, which is not written. -/
theorem serialized_restored :
    (∀ (node : Node) (now : Nat) (connection : EncryptedConnectionLog) (ignoreDuration : Bool),
      readConnection node (connection.serialize now) ignoreDuration =
        some ⟨connection.desync, connection.ownSessionKey, connection.peerSessionKey,
          connection.peerStaMac, connection.peerApMac,
          if ignoreDuration then none
          else connection.timeTracker.map (·.remainingDuration now)⟩) ∧
    ∀ s loading : MeshState, loading.loadMeshState s.serializeMeshState =
      (true, { loading with
        mesh := { loading.mesh with messageCount := s.mesh.messageCount }
        unsynchronizedMessageID := s.unsynchronizedMessageID }) := by
  constructor
  · intro node now connection ignoreDuration
    exact readConnection_serialize node now connection ignoreDuration
  · intro s loading
    exact loadMeshState_serializeMeshState s loading

def passwordMesh (letter : UInt8) (h : acceptsPassword (List.replicate 8 letter)) : MeshState :=
  ⟨emptyMesh, 7, List.replicate 8 letter, h⟩

theorem password_not_restored :
    ¬ ((∀ (node : Node) (now : Nat) (connection : EncryptedConnectionLog) (ignoreDuration : Bool),
      readConnection node (connection.serialize now) ignoreDuration =
        some ⟨connection.desync, connection.ownSessionKey, connection.peerSessionKey,
          connection.peerStaMac, connection.peerApMac,
          if ignoreDuration then none
          else connection.timeTracker.map (·.remainingDuration now)⟩) ∧
    ∀ s loading : MeshState, (loading.loadMeshState s.serializeMeshState).1 = true ∧
      (loading.loadMeshState s.serializeMeshState).2.unsynchronizedMessageID =
        s.unsynchronizedMessageID ∧
      (loading.loadMeshState s.serializeMeshState).2.meshPassword = s.meshPassword) := by
  rintro ⟨-, hrestored⟩
  have hpassword := (hrestored (passwordMesh 97 (by decide)) (passwordMesh 98 (by decide))).2.2
  have hkept : List.replicate 8 (98 : UInt8) = List.replicate 8 97 := hpassword
  exact absurd hkept (by decide)

end Restored

end Esp8266.Mesh
