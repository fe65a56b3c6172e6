import Mathlib.Data.List.TakeWhile
import Esp8266.Netbios.NameService

/-! Which names and datagrams are treated as they have to be. -/
namespace Esp8266.Netbios
open Esp8266.Ctype

def fields (packet : List UInt8) : List UInt8 := (packet.drop 46).take 4

def isQuestion (packet : List UInt8) : Bool :=
  questionSize ≤ packet.length && packet.getD 2 0 &&& 0x80 = 0

def nameQuery (packet : List UInt8) : Bool := isQuestion packet && fields packet = word 0x20 ++ word 1

def statusQuery (packet : List UInt8) : Bool :=
  isQuestion packet && fields packet = word 0x21 ++ word 1

def expected (name address packet text : List UInt8) : Option Reply :=
  if nameQuery packet = true ∧ text = name then some (.name (nameAnswer name address packet))
  else if statusQuery packet = true ∧ text = wildcard then some (.status (statusAnswer name packet))
  else none

def askedName (packet : List UInt8) : List UInt8 :=
  ended (decode (lettersOf (packet.getD 12 0).toNat (packet.drop nameOffset)))

/-- What has to hold of a name, the text that `begin` makes of it, and the buffers of a datagram. -/
structure Sound (name stored address : List UInt8) (chain : List (List UInt8)) : Prop where
  /-- The NUL is stored in `_name`. -/
  stores : name.length + 1 ≤ nameSize
  /-- The name fits into an answer. -/
  fits : stored.length ≤ nnameSize
  /-- Nothing is accessed behind a buffer of the packet or behind `name`. -/
  bounded : (recv stored address chain).isSome = true
  exact : isQuestion chain.flatten = true → recv stored address chain =
    some (expected stored address chain.flatten (askedName chain.flatten)).toList
  ignored : isQuestion chain.flatten = false → recv stored address chain = some []
  roundTrip : (getnbname 32 0 (makenbname stored 32)).map cString = some (padded nnameSize stored)

def Bounded (packet : List UInt8) : Prop :=
  (packet.getD 12 0).toNat ≤ 32 ∨ 0 ∈ (packet.drop nameOffset).take 33

/-- A question for the name or for any name, of whatever type. -/
def asks (name packet : List UInt8) : Bool :=
  isQuestion packet && (askedName packet = name || askedName packet = wildcard)

/-- A datagram that has to be answered has one buffer that asks, and it asks as the datagram does;
no buffer of another datagram asks. -/
def Chained (name : List UInt8) (chain : List (List UInt8)) : Prop :=
  if nameQuery chain.flatten = true ∧ askedName chain.flatten = name then
    ∃ pb, chain.filter (asks name) = [pb] ∧ askedName pb = name ∧ pb.take 2 = chain.flatten.take 2
  else if statusQuery chain.flatten = true ∧ askedName chain.flatten = wildcard then
    ∃ pb, chain.filter (asks name) = [pb] ∧ askedName pb ≠ name ∧
      pb.take 2 = chain.flatten.take 2 ∧ (pb.drop 12).take 34 = (chain.flatten.drop 12).take 34
  else chain.filter (asks name) = []

section Names
variable {stored : List UInt8}

theorem letters_nonzero (b : UInt8) : ∀ c ∈ letters b, c ≠ 0 := by
  -- computed as a `Bool` over the two letters, and not over all bytes
  have hall : ∀ n < 256, (letters (UInt8.ofNat n)).all (· ≠ 0) = true := by decide +kernel
  have hbyte := hall b.toNat b.toNat_lt
  rw [UInt8.ofNat_toNat, List.all_eq_true] at hbyte
  exact fun c hc => of_decide_eq_true (hbyte c hc)

theorem decode_letters (b : UInt8) (rest : List UInt8) :
    decode (letters b ++ rest) = b :: decode rest := by
  have hall : ∀ n < 256, (((UInt8.ofNat n >>> 4 + letterA) - letterA) <<< 4 |||
      ((UInt8.ofNat n &&& 0xF) + letterA - letterA)) = UInt8.ofNat n := by decide +kernel
  have hbyte := hall b.toNat b.toNat_lt
  rw [UInt8.ofNat_toNat] at hbyte
  exact congrArg (· :: decode rest) hbyte

theorem nibbles_nonzero (n : Nat) (name : List UInt8) : ∀ c ∈ nibbles n name, c ≠ 0 := by
  induction n generalizing name with
  | zero => intro c hc; cases hc
  | succ n ih =>
    cases name with
    | nil => exact fun c hc => (List.mem_append.mp hc).elim (letters_nonzero space c) (ih [] c)
    | cons b name => exact fun c hc => (List.mem_append.mp hc).elim (letters_nonzero b c) (ih name c)

theorem length_nibbles (n : Nat) (name : List UInt8) : (nibbles n name).length = 2 * n := by
  induction n generalizing name with
  | zero => rfl
  | succ n ih =>
    cases name with
    | nil => simp [nibbles, letters, ih]; omega
    | cons b name => simp [nibbles, letters, ih]; omega

theorem decode_nibbles (n : Nat) (name rest : List UInt8) (h : name.length ≤ n) :
    decode (nibbles n name ++ rest) = padded n name ++ decode rest := by
  induction n generalizing name with
  | zero =>
    rw [List.length_eq_zero_iff.mp (Nat.le_zero.mp h)]
    rfl
  | succ n ih =>
    cases name with
    | nil =>
      rw [nibbles, List.append_assoc, decode_letters, ih [] (Nat.zero_le n)]
      rfl
    | cons b name =>
      rw [nibbles, List.append_assoc, decode_letters, ih name (Nat.le_of_succ_le_succ h)]
      simp [padded]

theorem makenbname_decodes (hstored : 0 ∉ stored) (hfits : stored.length ≤ nnameSize) :
    (getnbname 32 0 (makenbname stored 32)).map cString = some (padded nnameSize stored) := by
  have hlength : (makenbname stored 32).length = 33 := by
    simp [makenbname, length_nibbles]
  have hwhole : makenbname stored 32 = (nibbles 15 stored ++ letters 0) ++ [0] := by
    simp [makenbname, letters]
  have hletters : lettersOf 32 (makenbname stored 32) = nibbles 15 stored ++ letters 0 := by
    unfold lettersOf
    rw [hwhole, List.take_left' (by simp [length_nibbles, letters]), List.takeWhile_eq_self_iff]
    intro c hc
    apply decide_eq_true
    exact (List.mem_append.mp hc).elim (nibbles_nonzero 15 stored c) (letters_nonzero 0 c)
  obtain ⟨hname, -⟩ := @getnbname_short 32 0 (makenbname stored 32) 16 (by rw [hlength])
    (by decide) (Or.inl (by decide))
  have hzero := decode_letters 0 []
  rw [List.append_nil] at hzero
  rw [hname, Option.map_some, Option.some.injEq]
  have hsize : (32 : UInt8).toNat - (0 : UInt8).toNat = 32 := rfl
  rw [hsize, hletters, decode_nibbles 15 stored _ hfits, hzero]
  unfold cString
  rw [List.takeWhile_append_of_pos]
  · exact List.append_nil _
  · intro c hc
    apply decide_eq_true
    rintro rfl
    rcases List.mem_append.mp hc with hc | hc
    · exact hstored hc
    · exact absurd (List.eq_of_mem_replicate hc) (by decide)

end Names

theorem toupper_eq_zero {c : UInt8} : toupper c = 0 ↔ c = 0 := by
  have hall : ∀ n < 256, toupper (UInt8.ofNat n) = 0 ↔ UInt8.ofNat n = 0 := by decide +kernel
  have hbyte := hall c.toNat c.toNat_lt
  rw [UInt8.ofNat_toNat] at hbyte
  exact hbyte

section Buffers
variable {name address packet : List UInt8}

theorem question_length (h : isQuestion packet = true) : questionSize ≤ packet.length := by
  rw [isQuestion, Bool.and_eq_true, decide_eq_true_iff] at h
  exact h.1

theorem recvPbuf_other (h : isQuestion packet = false) :
    recvPbuf name address packet = some none := by
  unfold recvPbuf
  rw [isQuestion, Bool.and_eq_false_iff, decide_eq_false_iff_not, decide_eq_false_iff_not] at h
  by_cases hsize : packet.length < questionSize
  · rw [if_pos hsize]
  · rw [if_neg hsize, if_pos (h.resolve_left fun h => h (Nat.le_of_not_lt hsize))]

theorem recvPbuf_question (h : isQuestion packet = true) :
    recvPbuf name address packet = answerQuestion name address packet := by
  rw [isQuestion, Bool.and_eq_true, decide_eq_true_iff, decide_eq_true_iff] at h
  unfold recvPbuf
  rw [if_neg (Nat.not_lt.mpr h.1), if_neg (Classical.not_not.mpr h.2)]

theorem letters_length (h : isQuestion packet = true) : 33 ≤ (packet.drop nameOffset).length := by
  have hlength := question_length h
  rw [List.length_drop]
  unfold questionSize at hlength
  unfold nameOffset
  omega

theorem recvPbuf_bounded (h : isQuestion packet = true) (hbounded : Bounded packet) :
    recvPbuf name address packet = some (replyTo name address packet (askedName packet)) := by
  obtain ⟨htext, hlength⟩ := @getnbname_short (packet.getD 12 0) 0 (packet.drop nameOffset) 16
    (letters_length h) (by decide) hbounded
  rw [recvPbuf_question h, answerQuestion, htext]
  exact if_neg (by unfold nameSize; omega)

theorem recvPbuf_unbounded (h : isQuestion packet = true) (hbounded : ¬ Bounded packet) :
    recvPbuf name address packet = none := by
  obtain ⟨hmaxlen, hnul⟩ := not_or.mp hbounded
  have hlong := @getnbname_long (packet.getD 12 0) 0 (packet.drop nameOffset) 16 (letters_length h)
    (Nat.lt_of_not_le hmaxlen) hnul
  rw [recvPbuf_question h, answerQuestion]
  cases hread : getnbname (packet.getD 12 0) 0 (packet.drop nameOffset) with
  | none => rfl
  | some text =>
    have hlength := hlong text hread
    exact if_pos (Nat.succ_lt_succ hlength)

/-- What a buffer that asks is answered with. -/
def replyAsked (name address packet : List UInt8) : Reply :=
  if askedName packet = name then .name (nameAnswer name address packet)
  else .status (statusAnswer name packet)

theorem recvPbuf_asks (hbounded : isQuestion packet = true → Bounded packet) :
    recvPbuf name address packet =
      some (if asks name packet = true then some (replyAsked name address packet) else none) := by
  unfold asks replyAsked
  by_cases hquestion : isQuestion packet = true
  · rw [recvPbuf_bounded hquestion (hbounded hquestion), replyTo, hquestion]
    grind
  · rw [recvPbuf_other (eq_false_of_ne_true hquestion), eq_false_of_ne_true hquestion]
    rfl

end Buffers

section Datagrams
variable {name address packet : List UInt8} {chain : List (List UInt8)}

theorem recv_bounded (h : ∀ pb ∈ chain, isQuestion pb = true → Bounded pb) :
    recv name address chain =
      some ((chain.filter (asks name)).map (replyAsked name address)) := by
  induction chain with
  | nil => rfl
  | cons pb next ih =>
    rw [recv, recvPbuf_asks (h pb List.mem_cons_self),
      ih fun pb hpb => h pb (List.mem_cons_of_mem _ hpb), List.filter_cons]
    by_cases hasks : asks name pb = true
    · simp [hasks]
    · simp [hasks]

theorem bounded_of_recv (h : (recv name address chain).isSome = true) :
    ∀ pb ∈ chain, isQuestion pb = true → Bounded pb := by
  induction chain with
  | nil => exact fun pb hpb => absurd hpb List.not_mem_nil
  | cons first next ih =>
    unfold recv at h
    split at h
    · cases h
    · rename_i reply hreply
      rw [Option.isSome_map] at h
      intro pb hpb hquestion
      rcases List.mem_cons.mp hpb with rfl | hpb
      · apply Classical.byContradiction
        intro hnot
        rw [recvPbuf_unbounded hquestion hnot] at hreply
        cases hreply
      · exact ih h pb hpb hquestion

theorem nameAnswer_inj {pb : List UInt8} (hpb : questionSize ≤ pb.length)
    (hpacket : questionSize ≤ packet.length) :
    nameAnswer name address pb = nameAnswer name address packet ↔ pb.take 2 = packet.take 2 := by
  have htake : (pb.take 2).length = (packet.take 2).length := by
    rw [List.length_take, List.length_take]
    unfold questionSize at hpb hpacket
    omega
  constructor
  · intro h
    unfold nameAnswer answerHeader at h
    simp only [List.append_assoc] at h
    exact (List.append_inj h htake).1
  · intro h
    rw [nameAnswer, answerHeader, h]
    rfl

theorem statusAnswer_inj {pb : List UInt8} (hpb : questionSize ≤ pb.length)
    (hpacket : questionSize ≤ packet.length) :
    statusAnswer name pb = statusAnswer name packet ↔
      pb.take 2 = packet.take 2 ∧ (pb.drop 12).take 34 = (packet.drop 12).take 34 := by
  unfold questionSize at hpb hpacket
  have htake : (pb.take 2).length = (packet.take 2).length := by
    rw [List.length_take, List.length_take]
    omega
  have hletters : ((pb.drop 12).take 34).length = ((packet.drop 12).take 34).length := by
    rw [List.length_take, List.length_take, List.length_drop, List.length_drop]
    omega
  constructor
  · intro h
    unfold statusAnswer answerHeader at h
    simp only [List.append_assoc] at h
    obtain ⟨hid, hrest⟩ := List.append_inj h htake
    exact ⟨hid, (List.append_inj (List.append_cancel_left (List.append_cancel_left
      (List.append_cancel_left (List.append_cancel_left (List.append_cancel_left hrest)))))
      hletters).1⟩
  · rintro ⟨hid, hletters⟩
    rw [statusAnswer, answerHeader, hid, hletters]
    rfl

theorem question_of_asks {pb : List UInt8} (h : asks name pb = true) : isQuestion pb = true :=
  (Bool.and_eq_true_iff.mp h).1

theorem replies_iff :
    (chain.filter (asks name)).map (replyAsked name address) =
      (expected name address chain.flatten (askedName chain.flatten)).toList ↔
    Chained name chain := by
  have hquestion : ∀ pb, chain.filter (asks name) = [pb] → questionSize ≤ pb.length := by
    intro pb hfilter
    have hmem : pb ∈ chain.filter (asks name) := hfilter ▸ List.mem_cons_self
    exact question_length (question_of_asks (List.mem_filter.mp hmem).2)
  unfold expected Chained
  split
  · rename_i hquery
    have hpacket := question_length (Bool.and_eq_true_iff.mp hquery.1).1
    rw [Option.toList_some, List.map_eq_singleton_iff]
    refine exists_congr fun pb => and_congr_right fun hfilter => ?_
    unfold replyAsked
    split
    · rename_i hname
      rw [Reply.name.injEq, nameAnswer_inj (hquestion pb hfilter) hpacket]
      simp [hname]
    · rename_i hname
      simp [hname]
  · split
    · rename_i hquery
      have hpacket := question_length (Bool.and_eq_true_iff.mp hquery.1).1
      rw [Option.toList_some, List.map_eq_singleton_iff]
      refine exists_congr fun pb => and_congr_right fun hfilter => ?_
      unfold replyAsked
      split
      · rename_i hname
        simp [hname]
      · rename_i hname
        rw [Reply.status.injEq, statusAnswer_inj (hquestion pb hfilter) hpacket]
        simp [hname]
    · rw [Option.toList_none, List.map_eq_nil_iff]

theorem expected_other (h : isQuestion packet = false) (text : List UInt8) :
    expected name address packet text = none := by
  simp [expected, nameQuery, statusQuery, h]

end Datagrams

/-- A name that `begin` takes, and the buffers of a datagram: all is well exactly if the name has 15
characters at most, each buffer that looks like a question codes a short name, and the buffers that
ask are the one that asks what the datagram asks. -/
theorem sound_iff {name stored : List UInt8} (hname : 0 ∉ name) (h : begin name = some stored)
    (address : List UInt8) (chain : List (List UInt8)) :
    Sound name stored address chain ↔ name.length ≤ nnameSize ∧
      (∀ pb ∈ chain, isQuestion pb = true → Bounded pb) ∧ Chained stored chain := by
  unfold begin at h
  split at h
  · cases h
  cases h
  have hlength : (name.map toupper).length = name.length := List.length_map _
  constructor
  · intro hsound
    have hbounded := bounded_of_recv hsound.bounded
    refine ⟨hlength ▸ hsound.fits, hbounded, (@replies_iff _ address chain).mp ?_⟩
    rw [← Option.some.injEq, ← recv_bounded hbounded]
    by_cases hquestion : isQuestion chain.flatten = true
    · exact hsound.exact hquestion
    · rw [hsound.ignored (eq_false_of_ne_true hquestion),
        expected_other (eq_false_of_ne_true hquestion)]
      rfl
  · rintro ⟨hfits, hbounded, hchained⟩
    have hnul : 0 ∉ name.map toupper := by
      intro hin
      obtain ⟨c, hc, hzero⟩ := List.mem_map.mp hin
      rw [toupper_eq_zero.mp hzero] at hc
      exact hname hc
    have hrecv : recv (name.map toupper) address chain = some (expected (name.map toupper) address
        chain.flatten (askedName chain.flatten)).toList := by
      rw [recv_bounded hbounded, replies_iff.mpr hchained]
    constructor
    · unfold nnameSize at hfits
      unfold nameSize
      omega
    · rw [hlength]
      exact hfits
    · rw [hrecv]
      rfl
    · exact fun _ => hrecv
    · intro hquestion
      rw [hrecv, expected_other hquestion]
      rfl
    · exact makenbname_decodes hnul (hlength.symm ▸ hfits)

def question (size type : UInt8) (first : List UInt8) : List UInt8 :=
  [0, 1, 0, 0, 0, 1, 0, 0, 0, 0, 0, 0, size] ++ first ++ List.replicate (33 - first.length) 0 ++
    [0, type, 0, 1]

/-- A question with two bytes behind it in a buffer of their own. -/
def buffers : List (List UInt8) := [question 32 0x20 (letters 65), [0, 0]]

theorem sound_question : Sound [65] [65] [0, 0, 0, 0] buffers := by
  have hsizes : ∀ pb ∈ buffers, (pb.getD 12 0).toNat ≤ 32 := by decide
  exact (sound_iff (by decide) rfl _ _).mpr ⟨by decide, fun pb hpb _ => Or.inl (hsizes pb hpb),
    question 32 0x20 (letters 65), by decide, by decide, by decide⟩

def longQuestion : List UInt8 :=
  [0, 1, 0, 0, 0, 1, 0, 0, 0, 0, 0, 0, 34] ++ List.replicate 37 letterA

theorem longQuestion_overruns :
    begin [65] = some [65] ∧ ¬ Sound [65] [65] [0, 0, 0, 0] [longQuestion] := by
  refine ⟨by decide, fun hsound => ?_⟩
  have hbounded := hsound.bounded
  have hnone : recv [65] [0, 0, 0, 0] [longQuestion] = none := by decide
  rw [hnone] at hbounded
  cases hbounded

end Esp8266.Netbios
