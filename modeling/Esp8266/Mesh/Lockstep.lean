import Mathlib.Algebra.Group.Nat.Defs
import Esp8266.Mesh.SessionKeys

/-! The keys of both sides are places in one chain of keys, the receiver's at most one ahead. -/
namespace Esp8266.Mesh

def sessionKey (hmac : Hmac) (first : UInt64) : Nat → UInt64
  | 0 => first
  | n + 1 => incrementSessionKey hmac 0 (sessionKey hmac first n)

structure Regular (hmac : Hmac) (first : UInt64) (length : Nat) : Prop where
  encrypts : usesEncryption first = true
  left : ∀ n < length, hmac (sessionKey hmac first n) &&& leftmostBits ≠ 0
  distinct : ∀ m ≤ length, ∀ n ≤ length,
    sessionKey hmac first m = sessionKey hmac first n → m = n

theorem rightmost_and (x : UInt32) : x.toUInt64 &&& leftmostBits = 0 := by
  apply UInt64.toNat_inj.mp
  rw [UInt64.toNat_and, UInt32.toNat_toUInt64]
  have hmask : leftmostBits.toNat = (2 ^ 32 - 1) * 2 ^ 32 := rfl
  apply Nat.eq_of_testBit_eq
  intro i
  rw [Nat.testBit_and, hmask, Nat.testBit_mul_two_pow]
  by_cases hi : 32 ≤ i
  · have hhigh : x.toNat.testBit i = false :=
      Nat.testBit_lt_two_pow (Nat.lt_of_lt_of_le x.toNat_lt (Nat.pow_le_pow_right (by decide) hi))
    rw [hhigh]
    simp
  · simp [hi]

theorem or_and_leftmost (x y : UInt64) :
    (x ||| y) &&& leftmostBits = (x &&& leftmostBits) ||| (y &&& leftmostBits) :=
  UInt64.toBitVec_inj.mp BitVec.and_or_distrib_right

namespace Regular
variable {hmac : Hmac} {first : UInt64} {length : Nat}

theorem increment_eq (h : Regular hmac first length) {n : Nat} (hn : n < length) (random : UInt32) :
    incrementSessionKey hmac random (sessionKey hmac first n) = sessionKey hmac first (n + 1) := by
  rw [sessionKey]
  unfold incrementSessionKey
  simp only [if_neg (h.left n hn)]

theorem encrypts_key (h : Regular hmac first length) {n : Nat} (hn : n ≤ length) :
    usesEncryption (sessionKey hmac first n) = true := by
  cases n with
  | zero => exact h.encrypts
  | succ n =>
    have hleft := h.left n hn
    unfold usesEncryption
    rw [sessionKey, decide_eq_true_iff]
    unfold incrementSessionKey
    simp only [if_neg hleft]
    rw [or_and_leftmost, rightmost_and, UInt64.or_zero, UInt64.and_assoc, UInt64.and_self]
    exact hleft

end Regular

theorem sessionKey_toUInt32 {hmac : Hmac} {first : UInt64} {length : Nat}
    (hleft : ∀ n < length, hmac (sessionKey hmac first n) &&& leftmostBits ≠ 0) {n : Nat}
    (hn : n ≤ length) :
    (sessionKey hmac first n).toUInt32 = first.toUInt32 + UInt32.ofNat n := by
  induction n with
  | zero => simp [sessionKey]
  | succ n ih =>
    have hmask : leftmostBits.toUInt32 = 0 := rfl
    rw [sessionKey]
    unfold incrementSessionKey
    simp only [if_neg (hleft n hn)]
    rw [UInt64.toUInt32_or, UInt64.toUInt32_and, hmask, UInt32.and_zero, UInt32.zero_or,
      UInt32.toUInt32_toUInt64, UInt64.toUInt32_add, ih (Nat.le_of_succ_le hn), UInt32.ofNat_add,
      UInt32.add_assoc]
    rfl

theorem Regular.of_left {hmac : Hmac} {first : UInt64} {length : Nat}
    (hencrypts : usesEncryption first = true)
    (hleft : ∀ n < length, hmac (sessionKey hmac first n) &&& leftmostBits ≠ 0)
    (hlength : length < 2 ^ 32) : Regular hmac first length where
  encrypts := hencrypts
  left := hleft
  distinct := by
    intro m hm n hn heq
    have hcount : first.toUInt32 + UInt32.ofNat m = first.toUInt32 + UInt32.ofNat n := by
      rw [← sessionKey_toUInt32 hleft hm, ← sessionKey_toUInt32 hleft hn, heq]
    have hplaces := congrArg UInt32.toNat ((UInt32.add_right_inj first.toUInt32).mp hcount)
    rw [UInt32.toNat_ofNat_of_lt' (Nat.lt_of_le_of_lt hm hlength),
      UInt32.toNat_ofNat_of_lt' (Nat.lt_of_le_of_lt hn hlength)] at hplaces
    exact hplaces

def Requester.Waits (a : Requester) : Prop :=
  a.desync = true ∨ ∃ t, a.sending = some t ∧ t.frame.messageID = a.ownSessionKey

def Responder.Knows (b : Responder) (messageID : UInt64) : Prop :=
  messageID ∈ b.receivedRequests ∨ messageID ∈ b.answers ∨
    ∃ remaining, (messageID, remaining) ∈ b.storedTransmissions

structure Chained (hmac : Hmac) (first : UInt64) (length i j : Nat) (s : Pair) : Prop where
  own : s.a.ownSessionKey = sessionKey hmac first i
  peer : s.b.peerSessionKey = sessionKey hmac first j
  between : i ≤ j ∧ j ≤ i + 1
  within : j ≤ length
  /-- A frame in transmission has a key that is not ahead; behind the own one, the sender is in
  step. -/
  sending : ∀ t, s.a.sending = some t → ∃ m ≤ i, t.frame.messageID = sessionKey hmac first m ∧
    (t.frame.messageStart = false → m < i) ∧ (m < i → s.a.desync = false) ∧
    (t.delivered = true → m < j) ∧
    (t.frame.synchronization = true → t.frame.transmissionsRemaining = 0)
  /-- The keys differ only while the sender waits, -/
  inStep : ¬ s.a.Waits → j = i
  /-- and it waits for every earlier frame with its key. -/
  air : ∀ f ∈ s.air, ∃ m ≤ i, f.messageID = sessionKey hmac first m ∧ (m = i → s.a.Waits)
  /-- What the receiver has had has older keys. -/
  older : ∀ messageID, s.b.Knows messageID → ∃ r < j, messageID = sessionKey hmac first r

def Processed (s : Pair) : RadioEvent → Prop
  | .drop => ∀ t, s.a.sending = some t → t.frame.messageID ≠ s.b.peerSessionKey
  | _ => True

def ProcessedRun (hmac : Hmac) : Pair → List RadioEvent → Prop
  | _, [] => True
  | s, event :: rest => Processed s event ∧ ProcessedRun hmac (s.step hmac event) rest

section Callback
variable {f : Frame} {answered : Bool} {b : Responder} {messageID : UInt64}

theorem erase_knows {erased : UInt64} (h : (b.erase erased).Knows messageID) :
    b.Knows messageID := by
  rcases h with h | h | ⟨remaining, h⟩
  · exact Or.inl h
  · exact Or.inr (Or.inl h)
  · exact Or.inr (Or.inr ⟨remaining, (List.mem_filter.mp h).1⟩)

theorem store_knows {stored : UInt64} {n : Nat} (h : (b.store stored n).Knows messageID) :
    messageID = stored ∨ b.Knows messageID := by
  rcases h with h | h | ⟨remaining, h⟩
  · exact Or.inr (Or.inl h)
  · exact Or.inr (Or.inr (Or.inl h))
  · rcases List.mem_cons.mp h with heq | hold
    · exact Or.inl (congrArg Prod.fst heq)
    · exact Or.inr (Or.inr (Or.inr ⟨remaining, hold⟩))

theorem finish_knows (h : (b.finish f answered).Knows messageID) :
    messageID = f.messageID ∨ b.Knows messageID := by
  unfold Responder.finish at h
  split at h
  · rcases h with h | h | ⟨remaining, h⟩
    · rcases List.mem_cons.mp h with heq | hold
      · exact Or.inl heq
      · exact Or.inr (Or.inl hold)
    · dsimp only at h
      split at h
      · rcases List.mem_cons.mp h with heq | hold
        · exact Or.inl heq
        · exact Or.inr (Or.inr (Or.inl hold))
      · exact Or.inr (Or.inr (Or.inl h))
    · exact Or.inr (Or.inr (Or.inr ⟨remaining, (List.mem_filter.mp h).1⟩))
  · exact Or.inr h

theorem callback_knows (h : (b.callback f answered).Knows messageID) :
    messageID = f.messageID ∨ b.Knows messageID := by
  unfold Responder.callback at h
  split at h
  · rcases finish_knows h with heq | hold
    · exact Or.inl heq
    · exact store_knows hold
  · exact finish_knows h
  · exact Or.inr h
  · split at h
    · rcases finish_knows h with heq | hstored
      · exact Or.inl heq
      · rcases store_knows hstored with heq | hold
        · exact Or.inl heq
        · exact Or.inr (erase_knows hold)
    · split at h
      · exact Or.inr (erase_knows h)
      · exact finish_knows h

theorem finish_peer : (b.finish f answered).peerSessionKey = b.peerSessionKey := by
  unfold Responder.finish
  split <;> rfl

theorem callback_peer : (b.callback f answered).peerSessionKey = b.peerSessionKey := by
  unfold Responder.callback
  split
  · exact finish_peer
  · exact finish_peer
  · rfl
  · split
    · exact finish_peer
    · split
      · rfl
      · exact finish_peer

end Callback

section Steps
variable {hmac : Hmac} {first : UInt64} {length i j : Nat} {s : Pair}

theorem synchronize_spec (h : Chained hmac first length i j s)
    (hregular : Regular hmac first length) (hroom : j < length) {m : Nat} (hm : m ≤ j)
    (random : UInt32) :
    s.b.synchronize hmac random (sessionKey hmac first m) =
      if m = j then { s.b with peerSessionKey := sessionKey hmac first (j + 1) } else s.b := by
  unfold Responder.synchronize Responder.synchronizes
  rw [hregular.encrypts_key (Nat.le_trans hm h.within), h.peer, Bool.true_and]
  by_cases hsame : m = j
  · subst hsame
    rw [if_pos (decide_eq_true rfl), if_pos rfl, hregular.increment_eq hroom]
  · have hother : sessionKey hmac first m ≠ sessionKey hmac first j := fun heq =>
      hsame (hregular.distinct m (Nat.le_trans hm h.within) j h.within heq)
    rw [if_neg (by simpa using hother), if_neg hsame]

theorem accepts_peer (h : Chained hmac first length i j s) (hregular : Regular hmac first length) :
    s.b.accepts s.b.peerSessionKey = true := by
  have hnew : s.b.peerSessionKey ∉ s.b.receivedRequests := by
    intro hreceived
    obtain ⟨r, hr, heq⟩ := h.older _ (Or.inl hreceived)
    have hwithin := h.within
    have := hregular.distinct j hwithin r (by omega) (h.peer.symm.trans heq)
    omega
  have hencrypts : usesEncryption s.b.peerSessionKey = true :=
    h.peer ▸ hregular.encrypts_key h.within
  simp [Responder.accepts, Responder.synchronizes, hnew, hencrypts]

theorem receive_spec (h : Chained hmac first length i j s) (hregular : Regular hmac first length)
    (hroom : j < length) (answered : Bool) (random : UInt32) {f : Frame} {m : Nat} (hm : m ≤ j)
    (hid : f.messageID = sessionKey hmac first m) :
    ∃ next, (next = j ∨ next = j + 1 ∧ m = j) ∧ m < next ∧
      (s.b.receive hmac answered random f).peerSessionKey = sessionKey hmac first next ∧
      ∀ messageID, (s.b.receive hmac answered random f).Knows messageID →
        ∃ r < next, messageID = sessionKey hmac first r := by
  obtain ⟨next, hnext, hless, hpeer, hknows⟩ : ∃ next, (next = j ∨ next = j + 1 ∧ m = j) ∧
      m < next ∧ (s.b.synchronize hmac random f.messageID).peerSessionKey =
        sessionKey hmac first next ∧
      ∀ messageID, (s.b.synchronize hmac random f.messageID).Knows messageID →
        s.b.Knows messageID := by
    rw [hid, synchronize_spec h hregular hroom hm random]
    by_cases hsame : m = j
    · rw [if_pos hsame]
      exact ⟨j + 1, Or.inr ⟨rfl, hsame⟩, by omega, rfl, fun _ hknown => hknown⟩
    · rw [if_neg hsame]
      exact ⟨j, Or.inl rfl, by omega, h.peer, fun _ hknown => hknown⟩
  have holder : ∀ messageID, s.b.Knows messageID →
      ∃ r < next, messageID = sessionKey hmac first r := by
    intro messageID hknown
    obtain ⟨r, hr, heq⟩ := h.older messageID hknown
    exact ⟨r, by omega, heq⟩
  unfold Responder.receive
  split
  · exact ⟨next, hnext, hless, hpeer, fun messageID hknown => holder messageID (hknows _ hknown)⟩
  · split
    · refine ⟨next, hnext, hless, callback_peer.trans hpeer, fun messageID hknown => ?_⟩
      rcases callback_knows hknown with heq | hold
      · exact ⟨m, hless, heq.trans hid⟩
      · exact holder messageID (hknows _ hold)
    · rename_i hrejected
      -- a frame that is rejected does not have the key
      have hother : m ≠ j := by
        intro hsame
        have hkey : f.messageID = s.b.peerSessionKey := by rw [hid, hsame, h.peer]
        exact hrejected (hkey ▸ accepts_peer h hregular)
      exact ⟨j, Or.inl rfl, by omega, h.peer, h.older⟩

theorem sends_chained {a : Requester} {i' : Nat}
    (hair : ∀ f ∈ s.air, ∃ m ≤ i', f.messageID = sessionKey hmac first m ∧ (m = i' → a.Waits))
    (hown : a.ownSessionKey = sessionKey hmac first i')
    (hsending : ∀ t, a.sending = some t → ∃ m ≤ i', t.frame.messageID = sessionKey hmac first m) :
    ∀ f ∈ (s.sends a).air, ∃ m ≤ i', f.messageID = sessionKey hmac first m ∧
      (m = i' → a.Waits) := by
  intro f hf
  unfold Pair.sends at hf
  dsimp only at hf
  cases hcase : a.sending with
  | none =>
    rw [hcase] at hf
    exact hair f hf
  | some t =>
    rw [hcase] at hf
    rcases List.mem_cons.mp hf with rfl | hold
    · obtain ⟨m, hm, hid⟩ := hsending t hcase
      refine ⟨m, hm, hid, fun hsame => Or.inr ⟨t, hcase, ?_⟩⟩
      rw [hid, hsame, hown]
    · exact hair f hold

theorem transmit_chained (h : Chained hmac first length i j s) {f : Frame}
    (hid : f.messageID = s.a.ownSessionKey) (hstart : f.messageStart = true)
    (hsync : f.synchronization = true → f.transmissionsRemaining = 0) :
    Chained hmac first length i j (s.sends (s.a.transmit f)) := by
  have hwaits : (s.a.transmit f).Waits := Or.inr ⟨⟨f, false⟩, rfl, hid⟩
  refine ⟨h.own, h.peer, h.between, h.within, fun t ht => ?_, fun hnot => absurd hwaits hnot,
    sends_chained (fun g hg => ?_) h.own fun t ht => ?_, h.older⟩
  · cases ht
    exact ⟨i, Nat.le_refl i, hid.trans h.own, fun hfalse => (nomatch hstart.symm.trans hfalse),
      fun hlt => absurd hlt (Nat.lt_irrefl i), fun hfalse => (nomatch hfalse), hsync⟩
  · obtain ⟨m, hm, hkey, -⟩ := h.air g hg
    exact ⟨m, hm, hkey, fun _ => hwaits⟩
  · cases ht
    exact ⟨i, Nat.le_refl i, hid.trans h.own⟩

theorem send_chained (h : Chained hmac first length i j s) (remaining : Nat) :
    Chained hmac first length i j (s.sends (s.a.send remaining)) := by
  unfold Requester.send
  split
  · refine ⟨h.own, h.peer, h.between, h.within, h.sending, h.inStep,
      sends_chained h.air h.own fun t ht => ?_, h.older⟩
    obtain ⟨m, hm, hid, -⟩ := h.sending t ht
    exact ⟨m, hm, hid⟩
  · split
    · exact transmit_chained h rfl rfl fun _ => rfl
    · exact transmit_chained h rfl rfl fun hfalse => (nomatch hfalse)

theorem Chained.air_waits (h : Chained hmac first length i j s) {a : Requester}
    (hwaits : s.a.Waits → a.Waits) : ∀ f ∈ s.air, ∃ m ≤ i,
      f.messageID = sessionKey hmac first m ∧ (m = i → a.Waits) := by
  intro f hf
  obtain ⟨m, hm, hkey, hold⟩ := h.air f hf
  exact ⟨m, hm, hkey, fun hsame => hwaits (hold hsame)⟩

theorem reached_waits {t : Transmission} (hsending : s.a.sending = some t) :
    (s.reached t.frame).a.Waits ↔ s.a.Waits := by
  unfold Requester.Waits Pair.reached
  dsimp only
  rw [hsending]
  simp

theorem deliver_chained (h : Chained hmac first length i j s) (hregular : Regular hmac first length)
    (hroom : j < length) (answered : Bool) (random : UInt32) {t : Transmission}
    (hsending : s.a.sending = some t) :
    ∃ next ≤ j + 1, Chained hmac first length i next
      { s.reached t.frame with b := s.b.receive hmac answered random t.frame } := by
  obtain ⟨m, hm, hid, hstart, hsteady, hdelivered, hsync⟩ := h.sending t hsending
  have hbetween := h.between
  obtain ⟨next, hnext, hless, hpeer, holder⟩ :=
    receive_spec h hregular hroom answered random (Nat.le_trans hm hbetween.1) hid
  refine ⟨next, by omega, h.own, hpeer, by omega, by omega, fun u hu => ?_, fun hnot => ?_,
    h.air_waits (reached_waits hsending).mpr, holder⟩
  · cases hu
    exact ⟨m, hm, hid, hstart, hsteady, fun _ => hless, hsync⟩
  · have hidle : ¬ s.a.Waits := fun hwaits => hnot ((reached_waits hsending).mpr hwaits)
    have hold := h.inStep hidle
    have hplace : m ≠ i := by
      rintro rfl
      exact hidle (Or.inr ⟨t, hsending, hid.trans h.own.symm⟩)
    omega

theorem drop_chained (h : Chained hmac first length i j s) {t : Transmission}
    (hsending : s.a.sending = some t) (hseen : t.frame.messageID ≠ s.b.peerSessionKey) :
    Chained hmac first length i j (s.reached t.frame) := by
  obtain ⟨m, hm, hid, hstart, hsteady, hdelivered, hsync⟩ := h.sending t hsending
  have hbetween := h.between
  refine ⟨h.own, h.peer, h.between, h.within, fun u hu => ?_, fun hnot => ?_,
    h.air_waits (reached_waits hsending).mpr, h.older⟩
  · cases hu
    refine ⟨m, hm, hid, hstart, hsteady, fun _ => ?_, hsync⟩
    have hplace : m ≠ j := by
      rintro rfl
      exact hseen (hid.trans h.peer.symm)
    omega
  · exact h.inStep fun hwaits => hnot ((reached_waits hsending).mpr hwaits)

theorem again_chained (h : Chained hmac first length i j s) (hregular : Regular hmac first length)
    (hroom : j < length) {f : Frame} (hf : f ∈ s.air) (answered : Bool) (random : UInt32) :
    ∃ next ≤ j + 1, Chained hmac first length i next
      { s with b := s.b.receive hmac answered random f } := by
  obtain ⟨m, hm, hid, hwaits⟩ := h.air f hf
  have hbetween := h.between
  obtain ⟨next, hnext, hless, hpeer, holder⟩ :=
    receive_spec h hregular hroom answered random (Nat.le_trans hm hbetween.1) hid
  refine ⟨next, by omega, h.own, hpeer, by omega, by omega, fun t ht => ?_, fun hnot => ?_, h.air,
    holder⟩
  · obtain ⟨r, hr, hkey, hstart, hsteady, hdelivered, hsync⟩ := h.sending t ht
    refine ⟨r, hr, hkey, hstart, hsteady, fun hreached => ?_, hsync⟩
    have := hdelivered hreached
    omega
  · have hold := h.inStep hnot
    have hplace : m ≠ i := fun hsame => hnot (hwaits hsame)
    omega

theorem advance_own (h : Chained hmac first length i j s) (hregular : Regular hmac first length)
    (hbehind : i < j) (random : UInt32) :
    (s.a.advance hmac random).ownSessionKey = sessionKey hmac first j := by
  have hbetween := h.between
  have hwithin := h.within
  have hnext : j = i + 1 := by omega
  unfold Requester.advance
  dsimp only
  rw [h.own, hregular.increment_eq (by omega) random, hnext]

theorem confirm_spec (h : Chained hmac first length i j s) (hregular : Regular hmac first length)
    (random : UInt32) {t : Transmission} (hsending : s.a.sending = some t)
    (hreached : t.delivered = true) :
    (s.a.confirm hmac random t.frame).ownSessionKey = sessionKey hmac first j ∧
      (s.a.confirm hmac random t.frame).desync = false ∧
      ∃ m < j, t.frame.messageID = sessionKey hmac first m ∧
        (i = j → ¬ s.a.Waits) := by
  obtain ⟨m, hm, hid, hstart, hsteady, hdelivered, -⟩ := h.sending t hsending
  have hbehind := hdelivered hreached
  have hbetween := h.between
  have hwithin := h.within
  have hwaiting : i = j → ¬ s.a.Waits := by
    rintro rfl (hdesync | ⟨u, hu, heq⟩)
    · exact nomatch hdesync.symm.trans (hsteady hbehind)
    · cases hsending.symm.trans hu
      have := hregular.distinct m (by omega) i hwithin (hid.symm.trans (heq.trans h.own))
      omega
  unfold Requester.confirm
  split
  · rename_i hfirst
    have hplace := hregular.distinct i (by omega) m (by omega)
      (h.own.symm.trans (hfirst.2.trans hid))
    exact ⟨advance_own h hregular (by omega) random, rfl, m, hbehind, hid, hwaiting⟩
  · rename_i hnot
    have hplace : m < i := by
      cases hflag : t.frame.messageStart with
      | false => exact hstart hflag
      | true =>
        have hother : m ≠ i := by
          rintro rfl
          exact hnot ⟨hflag, h.own.trans hid.symm⟩
        omega
    have hsame : j = i := by
      apply h.inStep
      rintro (hdesync | ⟨u, hu, heq⟩)
      · exact nomatch hdesync.symm.trans (hsteady hplace)
      · cases hsending.symm.trans hu
        have := hregular.distinct m (by omega) i (by omega) (hid.symm.trans (heq.trans h.own))
        omega
    exact ⟨hsame ▸ h.own, hsteady hplace, m, hbehind, hid, hwaiting⟩

theorem acknowledge_chained (h : Chained hmac first length i j s)
    (hregular : Regular hmac first length) (random : UInt32) {t : Transmission}
    (hsending : s.a.sending = some t) (hreached : t.delivered = true) :
    Chained hmac first length j j (s.sends (s.a.acknowledge hmac random t.frame)) := by
  obtain ⟨hown, hstep, m, hm, hid, hwaiting⟩ := confirm_spec h hregular random hsending hreached
  obtain ⟨-, -, -, -, -, -, hsync⟩ := h.sending t hsending
  have hbetween := h.between
  -- no earlier frame has the key
  have hair : ∀ a : Requester, ∀ f ∈ s.air, ∃ r ≤ j, f.messageID = sessionKey hmac first r ∧
      (r = j → a.Waits) := by
    intro a f hf
    obtain ⟨r, hr, hkey, hwaits⟩ := h.air f hf
    refine ⟨r, by omega, hkey, fun hsame => ?_⟩
    have hplace : i = j := by omega
    exact absurd (hwaits (by omega)) (hwaiting hplace)
  unfold Requester.acknowledge
  split
  · exact ⟨hown, h.peer, ⟨Nat.le_refl j, Nat.le_succ j⟩, h.within, fun u hu => (nomatch hu),
      fun _ => rfl, sends_chained (hair _) hown fun u hu => (nomatch hu), h.older⟩
  · rename_i hmore
    refine ⟨hown, h.peer, ⟨Nat.le_refl j, Nat.le_succ j⟩, h.within, fun u hu => ?_, fun _ => rfl,
      sends_chained (hair _) hown fun u hu => ?_, h.older⟩
    · cases hu
      exact ⟨m, Nat.le_of_lt hm, hid, fun _ => hm, fun _ => hstep, fun hfalse => (nomatch hfalse),
        fun hflag => absurd (hsync hflag) hmore⟩
    · cases hu
      exact ⟨m, Nat.le_of_lt hm, hid⟩

theorem timeout_chained (h : Chained hmac first length i j s) (hregular : Regular hmac first length)
    {t : Transmission} (hsending : s.a.sending = some t) :
    Chained hmac first length i j { s with a := s.a.timeout t.frame } := by
  obtain ⟨m, hm, hid, hstart, -, -, -⟩ := h.sending t hsending
  have hbetween := h.between
  have hwithin := h.within
  -- a sender that waits for its frame knows that it is out of step
  have hwaits : s.a.Waits → (s.a.timeout t.frame).Waits := by
    rintro (hdesync | ⟨u, hu, heq⟩)
    · exact Or.inl (by simp [Requester.timeout, hdesync])
    · cases hsending.symm.trans hu
      have hplace := hregular.distinct m (by omega) i (by omega)
        (hid.symm.trans (heq.trans h.own))
      cases hflag : t.frame.messageStart with
      | false => exact absurd (hstart hflag) (by omega)
      | true => exact Or.inl (by simp [Requester.timeout, hflag, heq])
  exact ⟨h.own, h.peer, h.between, h.within, fun u hu => (nomatch hu),
    fun hnot => h.inStep fun hold => hnot (hwaits hold), h.air_waits hwaits, h.older⟩

theorem answer_chained (h : Chained hmac first length i j s) (hregular : Regular hmac first length)
    {messageID : UInt64} (hanswer : messageID ∈ s.b.answers) (random : UInt32) :
    ∃ place, Chained hmac first length place j
      { s with a := s.a.answer hmac messageID random } := by
  obtain ⟨r, hr, hid⟩ := h.older messageID (Or.inr (Or.inl hanswer))
  have hbetween := h.between
  have hwithin := h.within
  unfold Requester.answer
  split
  · dsimp only
    split
    · rename_i hown
      have hplace := hregular.distinct i (by omega) r (by omega) (h.own.symm.trans (hown.trans hid))
      refine ⟨j, advance_own h hregular (by omega) random, h.peer, ⟨Nat.le_refl j, Nat.le_succ j⟩,
        hwithin, fun t ht => ?_, fun _ => rfl, fun f hf => ?_, h.older⟩
      · obtain ⟨m, hm, hkey, hstart, -, hdelivered, hsync⟩ := h.sending t ht
        exact ⟨m, by omega, hkey, fun _ => by omega, fun _ => rfl, hdelivered, hsync⟩
      · obtain ⟨m, hm, hkey, -⟩ := h.air f hf
        exact ⟨m, by omega, hkey, fun _ => by omega⟩
    · exact ⟨i, h.own, h.peer, h.between, hwithin, h.sending, h.inStep, h.air, h.older⟩
  · exact ⟨i, h⟩

theorem forget_chained (h : Chained hmac first length i j s) (messageID : UInt64) :
    Chained hmac first length i j { s with b := s.b.forget messageID } := by
  refine ⟨h.own, h.peer, h.between, h.within, h.sending, h.inStep, h.air, fun other hknown => ?_⟩
  apply h.older other
  rcases hknown with hmem | hmem | ⟨remaining, hmem⟩
  · exact Or.inl (List.mem_filter.mp hmem).1
  · exact Or.inr (Or.inl hmem)
  · exact Or.inr (Or.inr ⟨remaining, (List.mem_filter.mp hmem).1⟩)

theorem step_chained (h : Chained hmac first length i j s) (hregular : Regular hmac first length)
    (hroom : j < length) {event : RadioEvent} (hprocessed : Processed s event) :
    ∃ i' j', j' ≤ j + 1 ∧ Chained hmac first length i' j' (s.step hmac event) := by
  cases event with
  | send remaining => exact ⟨i, j, Nat.le_succ j, send_chained h remaining⟩
  | deliver answered random =>
    unfold Pair.step
    cases hsending : s.a.sending with
    | none => exact ⟨i, j, Nat.le_succ j, h⟩
    | some t =>
      obtain ⟨next, hle, hchained⟩ := deliver_chained h hregular hroom answered random hsending
      exact ⟨i, next, hle, hchained⟩
  | drop =>
    unfold Pair.step
    cases hsending : s.a.sending with
    | none => exact ⟨i, j, Nat.le_succ j, h⟩
    | some t =>
      dsimp only
      split
      · exact ⟨i, j, Nat.le_succ j, h⟩
      · exact ⟨i, j, Nat.le_succ j, drop_chained h hsending (hprocessed t hsending)⟩
  | acknowledge random =>
    unfold Pair.step
    cases hsending : s.a.sending with
    | none => exact ⟨i, j, Nat.le_succ j, h⟩
    | some t =>
      dsimp only
      split
      · rename_i hreached
        exact ⟨j, j, Nat.le_succ j, acknowledge_chained h hregular random hsending hreached⟩
      · exact ⟨i, j, Nat.le_succ j, h⟩
  | timeout =>
    unfold Pair.step
    cases hsending : s.a.sending with
    | none => exact ⟨i, j, Nat.le_succ j, h⟩
    | some t => exact ⟨i, j, Nat.le_succ j, timeout_chained h hregular hsending⟩
  | again f answered random =>
    unfold Pair.step
    dsimp only
    split
    · rename_i hf
      obtain ⟨next, hle, hchained⟩ := again_chained h hregular hroom hf answered random
      exact ⟨i, next, hle, hchained⟩
    · exact ⟨i, j, Nat.le_succ j, h⟩
  | answer messageID random =>
    unfold Pair.step
    dsimp only
    split
    · rename_i hanswer
      obtain ⟨place, hchained⟩ := answer_chained h hregular hanswer random
      exact ⟨place, j, Nat.le_succ j, hchained⟩
    · exact ⟨i, j, Nat.le_succ j, h⟩
  | forgetSent messageID =>
    exact ⟨i, j, Nat.le_succ j, h.own, h.peer, h.between, h.within, h.sending, h.inStep, h.air,
      h.older⟩
  | forgetReceived messageID => exact ⟨i, j, Nat.le_succ j, forget_chained h messageID⟩

theorem run_chained (hregular : Regular hmac first length) (events : List RadioEvent) :
    ∀ {s : Pair} {i j : Nat}, Chained hmac first length i j s → j + events.length ≤ length →
      ProcessedRun hmac s events →
      ∃ i' j', Chained hmac first length i' j' (s.run hmac events) := by
  induction events with
  | nil => exact fun h _ _ => ⟨_, _, h⟩
  | cons event rest ih =>
    intro s i j h hlength hprocessed
    rw [List.length_cons] at hlength
    obtain ⟨i', j', hle, hchained⟩ := step_chained h hregular (by omega) hprocessed.1
    exact ih hchained (by omega) hprocessed.2

end Steps

structure Lockstep (hmac : Hmac) (s : Pair) : Prop where
  /-- They are the same, or the receiver's is one ahead and the sender waits. -/
  keys : s.a.ownSessionKey = s.b.peerSessionKey ∨
    s.b.peerSessionKey = incrementSessionKey hmac 0 s.a.ownSessionKey ∧ s.a.Waits
  /-- Behind an acknowledged synchronisation request they are the same, and accepted. -/
  synchronized : ∀ t, s.a.sending = some t → t.frame.synchronization = true →
    t.delivered = true → ∀ random,
      (s.step hmac (.acknowledge random)).a.ownSessionKey =
          (s.step hmac (.acknowledge random)).b.peerSessionKey ∧
        (s.step hmac (.acknowledge random)).b.accepts
          (s.step hmac (.acknowledge random)).a.ownSessionKey = true
  /-- A request of a sender in step is accepted, -/
  accepted : s.a.ownSessionKey = s.b.peerSessionKey → s.b.accepts s.a.ownSessionKey = true
  /-- and no message with another key, but for the rest of one that was accepted. -/
  rejected : ∀ messageID, messageID ≠ s.b.peerSessionKey →
    (∀ remaining, (messageID, remaining) ∉ s.b.storedTransmissions) →
    s.b.accepts messageID = false

theorem Chained.lockstep {hmac : Hmac} {first : UInt64} {length i j : Nat} {s : Pair}
    (h : Chained hmac first length i j s) (hregular : Regular hmac first length) :
    Lockstep hmac s where
  keys := by
    have hbetween := h.between
    by_cases hwaits : s.a.Waits
    · rcases Nat.lt_or_ge i j with hahead | hsame
      · have hnext : j = i + 1 := by omega
        exact Or.inr ⟨by rw [h.own, h.peer, hnext, sessionKey], hwaits⟩
      · have hplace : i = j := by omega
        exact Or.inl (by rw [h.own, h.peer, hplace])
    · exact Or.inl (by rw [h.own, h.peer, h.inStep hwaits])
  synchronized := by
    intro t hsending _ hreached random
    have hchained := acknowledge_chained h hregular random hsending hreached
    have hstep : s.step hmac (.acknowledge random) =
        s.sends (s.a.acknowledge hmac random t.frame) := by
      unfold Pair.step
      rw [hsending]
      exact if_pos hreached
    have hkeys := hchained.own.trans hchained.peer.symm
    rw [hstep]
    exact ⟨hkeys, hkeys ▸ accepts_peer hchained hregular⟩
  accepted := fun hsame => hsame ▸ accepts_peer h hregular
  rejected := by
    intro messageID hother hstored
    have hnone : s.b.storedTransmissions.any (·.1 = messageID) = false := by
      rw [List.any_eq_false]
      rintro ⟨other, remaining⟩ hmem heq
      exact hstored remaining (of_decide_eq_true heq ▸ hmem)
    simp [Responder.accepts, Responder.synchronizes, Responder.verifies, hother, hnone]

structure FreshPair (s : Pair) : Prop where
  keys : s.a.ownSessionKey = s.b.peerSessionKey
  sending : s.a.sending = none
  air : s.air = []
  received : s.b.receivedRequests = []
  answers : s.b.answers = []
  stored : s.b.storedTransmissions = []

def zeroKeyHmac : Hmac := fun key =>
  if key = 0x0123456789ABCDEF then 0x004F83D53B51C892
  else if key = 0x004F83D589ABCDF0 then 0x49C8899E1C17C06E
  else if key = 0x49C8899E89ABCDF1 then 0x88D0D0099DF96112
  else 0xF2FC956ACEA5EE03

def connected : Pair where
  a := ⟨0x0123456789ABCDEF, false, none, []⟩
  b := ⟨0x0123456789ABCDEF, [], [], []⟩
  air := []

theorem connected_fresh : FreshPair connected := ⟨rfl, rfl, rfl, rfl, rfl, rfl⟩

theorem connected_regular : Regular zeroKeyHmac connected.a.ownSessionKey 4 :=
  Regular.of_left (by decide +kernel) (by decide +kernel) (by decide)

end Esp8266.Mesh
