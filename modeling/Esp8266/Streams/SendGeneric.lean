import Mathlib.Algebra.Group.Nat.Defs
import Mathlib.Algebra.Group.Int.Defs
import Esp8266.Streams.PeekBuffer

/-! `Stream::SendGenericPeekBuffer`: a transfer straight from the source's peek
buffer, limited by a length and by a terminator. -/
namespace Esp8266.Streams

def sizeT (n : Nat) : Nat := n % 2 ^ 32

structure SendState (σ δ : Type) where
  source : σ
  dest : δ
  written : Nat

/-- `std::max((ssize_t)0, len)`; 0 is a transfer until starvation. -/
def maxLen (len : Int) : Nat := (max 0 len).toNat

/-- The byte that `memchr` compares with, when there is one to look for. -/
def terminator (readUntilChar : Int) : Option UInt8 :=
  if 0 ≤ readUntilChar then some (UInt8.ofNat readUntilChar.toNat) else none

def memchr (buffer : List UInt8) (c : UInt8) (n : Nat) : Option Nat :=
  (buffer.take n).findIdx? (· = c)

section Send
variable {σ δ : Type} (source : PeekSource σ) (sink : Destination δ)
variable (len readUntilChar : Int)

def Goes (st : SendState σ δ) : Prop := maxLen len = 0 ∨ st.written < maxLen len

instance (st : SendState σ δ) : Decidable (Goes len st) :=
  inferInstanceAs (Decidable (_ ∨ _))

def poll (st : SendState σ δ) : SendState σ δ × Option Nat :=
  let avpk := source.peekAvailable st.source
  if avpk.1 = 0 ∧ source.inputCanTimeout avpk.2 = false then
    ({ st with source := avpk.2 }, none)
  else
    let w := sink.availableForWrite st.dest
    let st := { st with source := avpk.2, dest := w.2 }
    if w.1 = 0 ∧ sink.outputCanTimeout w.2 = false then (st, none)
    else
      let w := min w.1 avpk.1
      (st, some (if maxLen len ≠ 0 then min w (maxLen len - st.written) else w))

/-- Where the terminator stands in the `w` bytes to move. -/
def last (st : SendState σ δ) (w : Nat) : Option Nat :=
  match terminator readUntilChar with
  | some c => memchr (source.peekBuffer st.source) c w
  | none => none

/-- What is left of `w` in front of the terminator. -/
def cut (st : SendState σ δ) (w : Nat) : Nat :=
  match last source readUntilChar st w with
  | some offset => min offset w
  | none => w

def write (st : SendState σ δ) (w : Nat) : Nat × δ :=
  let w := cut source readUntilChar st w
  if w = 0 then (0, st.dest) else sink.write st.dest ((source.peekBuffer st.source).take w)

/-- Account for the `w` bytes the destination took. -/
def consume (st : SendState σ δ) (w : Nat) (dest : δ) : SendState σ δ :=
  if w = 0 then { st with dest }
  else { source := source.peekConsume st.source w, dest, written := sizeT (st.written + w) }

def transfer (st : SendState σ δ) (w : Nat) : SendState σ δ × Bool :=
  let foundChar := (last source readUntilChar st w).isSome
  let sent := write source sink readUntilChar st w
  let st := consume source st sent.1 sent.2
  if foundChar then ({ st with source := source.peekConsume st.source 1 }, true)
  else (st, false)

/-- One iteration up to the look at the timer; the flag is set by `break`. -/
def iteration (st : SendState σ δ) : SendState σ δ × Bool :=
  let polled := poll source sink len st
  match polled.2 with
  | none => (polled.1, true)
  | some 0 => (polled.1, false)
  | some w => transfer source sink readUntilChar polled.1 w

/-- The loop. The timer still runs when it is looked at for the first `patience`
times, and has expired at the next look. -/
def sendLoop : Nat → SendState σ δ → SendState σ δ
  | 0, st => if Goes len st then (iteration source sink len readUntilChar st).1 else st
  | patience + 1, st =>
      if Goes len st then
        let next := iteration source sink len readUntilChar st
        if next.2 then next.1 else sendLoop patience next.1
      else st

def sendGenericPeekBuffer (patience : Nat) (s : σ) (d : δ) : SendState σ δ :=
  sendLoop source sink len readUntilChar patience ⟨s, d, 0⟩

inductive Report where
  | success
  | timedOut
  | shortOperation
  deriving DecidableEq

def sendReport (report : Report) (timeoutMs : Nat) (timedOut : Bool) (st : SendState σ δ) :
    Report :=
  if report = .success ∧ 0 < maxLen len then
    if timeoutMs ≠ 0 ∧ timedOut = true then .timedOut
    else if (st.written : Int) ≠ len then .shortOperation
    else report
  else report

def passed (first st : SendState σ δ) : List UInt8 :=
  ((source.history st.source).drop (source.position first.source)).take st.written

/-- The transfer from `first` to `st`: the destination got the next `written` bytes
of the source, none of them the terminator, and the source advanced by as many,
or by one more which is the terminator. -/
structure Delivered (first st : SendState σ δ) : Prop where
  limit : maxLen len ≠ 0 → st.written ≤ maxLen len
  grown : source.history first.source <+: source.history st.source
  received : sink.received st.dest = sink.received first.dest ++ passed source first st
  length : source.position first.source + st.written ≤ (source.history st.source).length
  clean : ∀ c, terminator readUntilChar = some c → c ∉ passed source first st
  advanced : source.position st.source = source.position first.source + st.written ∨
    source.position st.source = source.position first.source + st.written + 1 ∧
      ∃ c, terminator readUntilChar = some c ∧
        (source.history st.source)[source.position first.source + st.written]? = some c

/-- In the coming iteration the destination takes all bytes before a terminator that
was seen, and the count of the bytes it takes does not wrap. -/
def TakesAll (st : SendState σ δ) : Prop :=
  ∀ w, (poll source sink len st).2 = some w → 0 < w →
    let polled := (poll source sink len st).1
    ((last source readUntilChar polled w).isSome = true →
      (write source sink readUntilChar polled w).1 = cut source readUntilChar polled w) ∧
    polled.written + (write source sink readUntilChar polled w).1 < 2 ^ 32

def TakesAllAlong : Nat → SendState σ δ → Prop
  | 0, st => Goes len st → TakesAll source sink len readUntilChar st
  | patience + 1, st =>
      Goes len st → TakesAll source sink len readUntilChar st ∧
        ((iteration source sink len readUntilChar st).2 = false →
          TakesAllAlong patience (iteration source sink len readUntilChar st).1)

structure Moved (first st : SendState σ δ) : Prop where
  limit : maxLen len ≠ 0 → st.written ≤ maxLen len
  grown : source.history first.source <+: source.history st.source
  received : sink.received st.dest = sink.received first.dest ++ passed source first st
  clean : ∀ c, terminator readUntilChar = some c → c ∉ passed source first st
  advanced : source.position st.source = source.position first.source + st.written
  small : st.written < 2 ^ 32

variable {source sink len readUntilChar}

variable (source readUntilChar) in
theorem cut_le (st : SendState σ δ) (w : Nat) : cut source readUntilChar st w ≤ w := by
  unfold cut
  split
  · exact Nat.min_le_right _ _
  · exact Nat.le_refl w

theorem last_none {st : SendState σ δ} {w : Nat} (hw : w ≤ source.window st.source)
    (h : last source readUntilChar st w = none) {c : UInt8}
    (hc : terminator readUntilChar = some c) : c ∉ (source.content st.source).take w := by
  unfold last memchr at h
  rw [hc, source.buffer_take st.source hw] at h
  simp only [List.findIdx?_eq_none_iff] at h
  intro hmem
  exact absurd (h c hmem) (by simp)

theorem last_some {st : SendState σ δ} {w k : Nat} (hw : w ≤ source.window st.source)
    (h : last source readUntilChar st w = some k) :
    k < w ∧ cut source readUntilChar st w = k ∧
      ∃ c, terminator readUntilChar = some c ∧ (source.content st.source)[k]? = some c ∧
        c ∉ (source.content st.source).take k := by
  have hcut : cut source readUntilChar st w = min k w := by
    unfold cut
    rw [h]
  unfold last memchr at h
  cases hc : terminator readUntilChar with
  | none =>
    rw [hc] at h
    exact absurd h (by simp)
  | some c =>
    rw [hc, source.buffer_take st.source hw] at h
    simp only at h
    obtain ⟨hk, heq, hbefore⟩ := List.findIdx?_eq_some_iff_getElem.mp h
    have hlength := hk
    rw [List.length_take] at hlength
    refine ⟨by omega, by omega, c, rfl, ?_, ?_⟩
    · have hat := List.getElem?_eq_getElem hk
      rw [List.getElem?_take_of_lt (by omega)] at hat
      simp only [decide_eq_true_eq] at heq
      rw [hat, heq]
    · intro hmem
      obtain ⟨j, hj, hval⟩ := List.mem_take_iff_getElem.mp hmem
      have hne := hbefore j (by omega)
      simp only [List.getElem_take, decide_eq_true_eq] at hne
      exact hne hval

/-- What `poll` does: more may arrive, nothing moves, and `w` is a count that the
peek buffer and the limit allow. -/
structure Polled (source : PeekSource σ) (sink : Destination δ) (len : Int)
    (st next : SendState σ δ) (found : Option Nat) : Prop where
  grown : source.history st.source <+: source.history next.source
  position : source.position next.source = source.position st.source
  received : sink.received next.dest = sink.received st.dest
  written : next.written = st.written
  window : ∀ w, found = some w → w ≤ source.window next.source
  limit : ∀ w, found = some w → maxLen len ≠ 0 → w ≤ maxLen len - st.written

variable (source sink len) in
theorem poll_spec (st : SendState σ δ) :
    Polled source sink len st (poll source sink len st).1 (poll source sink len st).2 := by
  have hwindow := source.window_available st.source
  have hgrown := source.history_available st.source
  have hposition := source.position_available st.source
  have hreceived := sink.received_available st.dest
  unfold poll
  simp only
  split
  · exact ⟨hgrown, hposition, rfl, rfl, by simp, by simp⟩
  · split
    · exact ⟨hgrown, hposition, hreceived, rfl, by simp, by simp⟩
    · refine ⟨hgrown, hposition, hreceived, rfl, ?_, ?_⟩
      · intro w hw
        have hle := Option.some.inj hw
        simp only
        split at hle <;> omega
      · intro w hw hlimit
        have hle := Option.some.inj hw
        rw [if_pos hlimit] at hle
        omega

theorem moved_poll {first st : SendState σ δ}
    (h : Moved source sink len readUntilChar first st) :
    Moved source sink len readUntilChar first (poll source sink len st).1 := by
  have hpoll := poll_spec source sink len st
  have hpassed : passed source first (poll source sink len st).1 = passed source first st := by
    unfold passed
    rw [hpoll.written]
    apply drop_take_of_leads hpoll.grown
    have := source.window_le st.source
    have := h.advanced
    omega
  constructor
  · rw [hpoll.written]
    exact h.limit
  · exact h.grown.trans hpoll.grown
  · rw [hpoll.received, hpassed]
    exact h.received
  · rw [hpassed]
    exact h.clean
  · rw [hpoll.position, hpoll.written]
    exact h.advanced
  · rw [hpoll.written]
    exact h.small

variable (sink readUntilChar) in
theorem write_spec {st : SendState σ δ} {w : Nat} (hw : w ≤ source.window st.source) :
    (write source sink readUntilChar st w).1 ≤ cut source readUntilChar st w ∧
      sink.received (write source sink readUntilChar st w).2 = sink.received st.dest ++
        (source.content st.source).take (write source sink readUntilChar st w).1 := by
  have hcut := cut_le source readUntilChar st w
  unfold write
  simp only
  split
  · simp
  · have hle := sink.write_le st.dest
      ((source.peekBuffer st.source).take (cut source readUntilChar st w))
    have hreceived := sink.received_write st.dest
      ((source.peekBuffer st.source).take (cut source readUntilChar st w))
    rw [List.length_take] at hle
    refine ⟨by omega, ?_⟩
    rw [hreceived, List.take_take, Nat.min_eq_left (by omega), source.buffer_take _ (by omega)]

theorem moved_consume {first st : SendState σ δ} {n : Nat} {dest : δ}
    (h : Moved source sink len readUntilChar first st) (hn : n ≤ source.window st.source)
    (hlimit : maxLen len ≠ 0 → n ≤ maxLen len - st.written)
    (hclean : ∀ c, terminator readUntilChar = some c → c ∉ (source.content st.source).take n)
    (hdest : sink.received dest = sink.received st.dest ++ (source.content st.source).take n)
    (hsmall : st.written + n < 2 ^ 32) :
    Moved source sink len readUntilChar first (consume source st n dest) := by
  have hmoved : ∀ s, source.history st.source <+: source.history s →
      source.position s = source.position st.source + n →
      Moved source sink len readUntilChar first ⟨s, dest, st.written + n⟩ := by
    intro s hgrown hposition
    have hwindow := source.window_le st.source
    have hadvanced := h.advanced
    have hpassed : passed source first ⟨s, dest, st.written + n⟩ =
        passed source first st ++ (source.content st.source).take n := by
      unfold passed PeekSource.content
      simp only
      rw [drop_take_of_leads hgrown (by omega), hadvanced, ← List.drop_drop, List.take_add]
    constructor
    · intro hne
      have := h.limit hne
      have := hlimit hne
      simp only
      omega
    · exact h.grown.trans hgrown
    · rw [hpassed, ← List.append_assoc, ← h.received]
      exact hdest
    · intro c hc
      rw [hpassed, List.mem_append, not_or]
      exact ⟨h.clean c hc, hclean c hc⟩
    · simp only
      omega
    · exact hsmall
  unfold consume
  split
  · rename_i hzero
    subst hzero
    exact hmoved st.source (List.prefix_refl _) rfl
  · have hsize : sizeT (st.written + n) = st.written + n := Nat.mod_eq_of_lt hsmall
    rw [hsize]
    exact hmoved _ (source.history_consume _ _ hn) (source.position_consume _ _ hn)

theorem moved_delivered {first st : SendState σ δ}
    (h : Moved source sink len readUntilChar first st) :
    Delivered source sink len readUntilChar first st where
  limit := h.limit
  grown := h.grown
  received := h.received
  length := by
    have := source.window_le st.source
    have := h.advanced
    omega
  clean := h.clean
  advanced := Or.inl h.advanced

theorem delivered_discard {first st : SendState σ δ} {b : UInt8}
    (h : Moved source sink len readUntilChar first st) (hwindow : 1 ≤ source.window st.source)
    (hb : (source.content st.source)[0]? = some b) :
    Delivered source sink len readUntilChar first
        { st with source := source.peekConsume st.source 1 } ↔
      terminator readUntilChar = some b := by
  have hgrown := source.history_consume st.source 1 hwindow
  have hposition := source.position_consume st.source 1 hwindow
  have hadvanced := h.advanced
  have hlength := source.window_le st.source
  have hat : (source.history (source.peekConsume st.source 1))[
      source.position first.source + st.written]? = some b := by
    unfold PeekSource.content at hb
    rw [List.getElem?_drop, Nat.add_zero, hadvanced] at hb
    have hlt := (List.getElem?_eq_some_iff.mp hb).1
    rw [List.prefix_iff_getElem?.mp hgrown _ hlt, ← hb]
    exact (List.getElem?_eq_getElem hlt).symm
  have hpassed : passed source first { st with source := source.peekConsume st.source 1 } =
      passed source first st := by
    unfold passed
    apply drop_take_of_leads hgrown
    simp only
    omega
  constructor
  · intro hdelivered
    cases hdelivered.advanced with
    | inl hsame =>
      simp only at hsame
      omega
    | inr hmore =>
      obtain ⟨-, c, hc, hbyte⟩ := hmore
      rw [hc, ← hbyte]
      exact hat
  · intro hterminator
    constructor
    · exact h.limit
    · exact h.grown.trans hgrown
    · rw [hpassed]
      exact h.received
    · have := hgrown.length_le
      simp only
      omega
    · rw [hpassed]
      exact h.clean
    · right
      refine ⟨?_, b, hterminator, hat⟩
      simp only
      omega

theorem window_consume {st : SendState σ δ} {n : Nat} (dest : δ)
    (hn : n ≤ source.window st.source) :
    source.window st.source - n ≤ source.window (consume source st n dest).source := by
  unfold consume
  split
  · exact Nat.sub_le _ _
  · exact source.window_consume _ _ hn

theorem content_consume {st : SendState σ δ} {n : Nat} (dest : δ) {b : UInt8}
    (hn : n ≤ source.window st.source) (hb : (source.content st.source)[n]? = some b) :
    (source.content (consume source st n dest).source)[0]? = some b := by
  unfold consume
  split
  · rename_i hzero
    rw [hzero] at hb
    exact hb
  · unfold PeekSource.content at hb ⊢
    rw [List.getElem?_drop] at hb ⊢
    simp only
    rw [source.position_consume _ _ hn, Nat.add_zero]
    have hlt := (List.getElem?_eq_some_iff.mp hb).1
    rw [List.prefix_iff_getElem?.mp (source.history_consume st.source n hn) _ hlt, ← hb]
    exact (List.getElem?_eq_getElem hlt).symm

theorem clean_cut {st : SendState σ δ} {w : Nat} (hw : w ≤ source.window st.source) :
    ∀ c, terminator readUntilChar = some c →
      c ∉ (source.content st.source).take (cut source readUntilChar st w) := by
  intro c hc
  cases hlast : last source readUntilChar st w with
  | none =>
    have hcut : cut source readUntilChar st w = w := by
      unfold cut
      rw [hlast]
    rw [hcut]
    exact last_none hw hlast hc
  | some k =>
    obtain ⟨-, hcut, c', hc', -, hclean⟩ := last_some hw hlast
    rw [hcut, Option.some.inj (hc.symm.trans hc')]
    exact hclean

theorem moved_write {first st : SendState σ δ} {w : Nat}
    (h : Moved source sink len readUntilChar first st) (hw : w ≤ source.window st.source)
    (hlimit : maxLen len ≠ 0 → w ≤ maxLen len - st.written)
    (hsmall : st.written + (write source sink readUntilChar st w).1 < 2 ^ 32) :
    Moved source sink len readUntilChar first
      (consume source st (write source sink readUntilChar st w).1
        (write source sink readUntilChar st w).2) := by
  obtain ⟨hle, hreceived⟩ := write_spec sink readUntilChar hw
  have hcut := cut_le source readUntilChar st w
  apply moved_consume h (by omega) _ _ hreceived hsmall
  · intro hne
    have := hlimit hne
    omega
  · intro c hc hmem
    exact clean_cut hw c hc (List.take_subset_take_left _ hle hmem)

theorem transfer_none {first st : SendState σ δ} {w : Nat}
    (h : Moved source sink len readUntilChar first st) (hw : w ≤ source.window st.source)
    (hlimit : maxLen len ≠ 0 → w ≤ maxLen len - st.written)
    (hsmall : st.written + (write source sink readUntilChar st w).1 < 2 ^ 32)
    (hlast : last source readUntilChar st w = none) :
    (transfer source sink readUntilChar st w).2 = false ∧
      Moved source sink len readUntilChar first (transfer source sink readUntilChar st w).1 := by
  have hmoved := moved_write h hw hlimit hsmall
  unfold transfer
  simp only [hlast, Option.isSome_none, Bool.false_eq_true, if_false, true_and]
  exact hmoved

theorem transfer_some {first st : SendState σ δ} {w k : Nat}
    (h : Moved source sink len readUntilChar first st) (hw : w ≤ source.window st.source)
    (hlimit : maxLen len ≠ 0 → w ≤ maxLen len - st.written)
    (hsmall : st.written + (write source sink readUntilChar st w).1 < 2 ^ 32)
    (hlast : last source readUntilChar st w = some k) :
    (transfer source sink readUntilChar st w).2 = true ∧
      (Delivered source sink len readUntilChar first (transfer source sink readUntilChar st w).1 ↔
        (write source sink readUntilChar st w).1 = cut source readUntilChar st w) := by
  have hmoved := moved_write h hw hlimit hsmall
  obtain ⟨hkw, hcut, c, hc, hat, hclean⟩ := last_some hw hlast
  obtain ⟨hle, -⟩ := write_spec sink readUntilChar hw
  have htransfer : transfer source sink readUntilChar st w =
      ({ consume source st (write source sink readUntilChar st w).1
            (write source sink readUntilChar st w).2 with
          source := source.peekConsume
            (consume source st (write source sink readUntilChar st w).1
              (write source sink readUntilChar st w).2).source 1 }, true) := by
    unfold transfer
    simp only [hlast, Option.isSome_some, if_true]
  rw [htransfer]
  refine ⟨rfl, ?_⟩
  generalize (write source sink readUntilChar st w).1 = n at hmoved hle ⊢
  generalize (write source sink readUntilChar st w).2 = dest at hmoved ⊢
  rw [hcut] at hle ⊢
  have hlength := source.window_le_content st.source
  obtain ⟨b, hb⟩ : ∃ b, (source.content st.source)[n]? = some b :=
    ⟨_, List.getElem?_eq_getElem (by omega)⟩
  have hwindow := window_consume dest (Nat.le_trans hle (Nat.le_trans (Nat.le_of_lt hkw) hw))
  rw [delivered_discard hmoved (by omega) (content_consume dest (by omega) hb), hc]
  constructor
  · intro heq
    rcases Nat.lt_or_eq_of_le hle with hlt | hsame
    -- an earlier byte is not the terminator
    · exfalso
      have hmem : b ∈ (source.content st.source).take k := by
        rw [List.mem_take_iff_getElem]
        obtain ⟨hn, hval⟩ := List.getElem?_eq_some_iff.mp hb
        exact ⟨n, by omega, hval⟩
      exact hclean (Option.some.inj heq ▸ hmem)
    · exact hsame
  · intro hsame
    rw [← hb, hsame, hat]

variable (source sink len readUntilChar) in
theorem iteration_cases (st : SendState σ δ) :
    (poll source sink len st).2 = none ∧
        iteration source sink len readUntilChar st = ((poll source sink len st).1, true) ∨
      (poll source sink len st).2 = some 0 ∧
        iteration source sink len readUntilChar st = ((poll source sink len st).1, false) ∨
      ∃ w, (poll source sink len st).2 = some w ∧ 0 < w ∧
        iteration source sink len readUntilChar st =
          transfer source sink readUntilChar (poll source sink len st).1 w := by
  unfold iteration
  simp only
  cases hfound : (poll source sink len st).2 with
  | none => exact Or.inl ⟨rfl, rfl⟩
  | some w =>
    cases w with
    | zero => exact Or.inr (Or.inl ⟨rfl, rfl⟩)
    | succ w => exact Or.inr (Or.inr ⟨w + 1, rfl, Nat.zero_lt_succ w, rfl⟩)

theorem iteration_takesAll {first st : SendState σ δ}
    (h : Moved source sink len readUntilChar first st)
    (htakes : TakesAll source sink len readUntilChar st) :
    ((iteration source sink len readUntilChar st).2 = false →
        Moved source sink len readUntilChar first (iteration source sink len readUntilChar st).1) ∧
      ((iteration source sink len readUntilChar st).2 = true →
        Delivered source sink len readUntilChar first
          (iteration source sink len readUntilChar st).1) := by
  have hpolled := moved_poll h
  have hpoll := poll_spec source sink len st
  rcases iteration_cases source sink len readUntilChar st with hnone | hzero | hsome
  · rw [hnone.2]
    exact ⟨fun hgo => absurd hgo (by simp), fun _ => moved_delivered hpolled⟩
  · rw [hzero.2]
    exact ⟨fun _ => hpolled, fun hstop => absurd hstop (by simp)⟩
  · obtain ⟨w, hw, hpos, heq⟩ := hsome
    obtain ⟨hshort, hsmall⟩ := htakes w hw hpos
    have hwindow := hpoll.window w hw
    have hlimit := hpoll.limit w hw
    rw [← hpoll.written] at hlimit
    rw [heq]
    cases hlast : last source readUntilChar (poll source sink len st).1 w with
    | none =>
      have htransfer := transfer_none hpolled hwindow hlimit hsmall hlast
      exact ⟨fun _ => htransfer.2, fun hstop => absurd hstop (by simp [htransfer.1])⟩
    | some k =>
      have htransfer := transfer_some hpolled hwindow hlimit hsmall hlast
      refine ⟨fun hgo => absurd hgo (by simp [htransfer.1]), fun _ => ?_⟩
      exact htransfer.2.mpr (hshort (by simp [hlast]))

def Overfull (sink : Destination δ) (first st : SendState σ δ) : Prop :=
  (sink.received first.dest).length + 2 ^ 32 ≤ (sink.received st.dest).length

theorem transfer_dest (st : SendState σ δ) (w : Nat) :
    (transfer source sink readUntilChar st w).1.dest = (write source sink readUntilChar st w).2 := by
  unfold transfer consume
  simp only
  split <;> split <;> rfl

theorem transfer_written (st : SendState σ δ) (w : Nat) (h : st.written < 2 ^ 32) :
    (transfer source sink readUntilChar st w).1.written < 2 ^ 32 := by
  have hsize : sizeT (st.written + (write source sink readUntilChar st w).1) < 2 ^ 32 :=
    Nat.mod_lt _ (by decide)
  unfold transfer consume
  simp only
  split <;> split <;> assumption

variable (source sink len readUntilChar) in
theorem iteration_keeps (st : SendState σ δ) (h : st.written < 2 ^ 32) :
    (iteration source sink len readUntilChar st).1.written < 2 ^ 32 ∧
      (sink.received st.dest).length ≤
        (sink.received (iteration source sink len readUntilChar st).1.dest).length := by
  have hpoll := poll_spec source sink len st
  have hwritten : (poll source sink len st).1.written < 2 ^ 32 := by
    rw [hpoll.written]
    exact h
  have hreceived := congrArg List.length hpoll.received
  rcases iteration_cases source sink len readUntilChar st with hnone | hzero | hsome
  · rw [hnone.2]
    exact ⟨hwritten, Nat.le_of_eq hreceived.symm⟩
  · rw [hzero.2]
    exact ⟨hwritten, Nat.le_of_eq hreceived.symm⟩
  · obtain ⟨w, hw, hpos, heq⟩ := hsome
    have hwrite := (write_spec sink readUntilChar (hpoll.window w hw)).2
    rw [heq, transfer_dest, hwrite, List.length_append, hreceived]
    exact ⟨transfer_written _ w hwritten, Nat.le_add_right _ _⟩

theorem not_delivered_of_overfull {first st : SendState σ δ} (h : Overfull sink first st)
    (hsmall : st.written < 2 ^ 32) : ¬ Delivered source sink len readUntilChar first st := by
  intro hdelivered
  have hreceived := congrArg List.length hdelivered.received
  have hpassed : (passed source first st).length ≤ st.written := by
    unfold passed
    rw [List.length_take]
    exact Nat.min_le_left _ _
  unfold Overfull at h
  rw [List.length_append] at hreceived
  omega

theorem iteration_spoils {first st : SendState σ δ}
    (h : Moved source sink len readUntilChar first st)
    (htakes : ¬ TakesAll source sink len readUntilChar st) :
    (iteration source sink len readUntilChar st).2 = true ∧
        ¬ Delivered source sink len readUntilChar first
          (iteration source sink len readUntilChar st).1 ∨
      Overfull sink first (iteration source sink len readUntilChar st).1 := by
  have hpolled := moved_poll h
  have hpoll := poll_spec source sink len st
  unfold TakesAll at htakes
  simp only [Classical.not_forall] at htakes
  obtain ⟨w, hw, hpos, hbad⟩ := htakes
  have heq : iteration source sink len readUntilChar st =
      transfer source sink readUntilChar (poll source sink len st).1 w := by
    rcases iteration_cases source sink len readUntilChar st with hnone | hzero | hsome
    · exact absurd (hnone.1.symm.trans hw) (by simp)
    · have hsame := Option.some.inj (hzero.1.symm.trans hw)
      omega
    · obtain ⟨w', hw', -, heq⟩ := hsome
      rw [heq, Option.some.inj (hw.symm.trans hw')]
  have hwindow := hpoll.window w hw
  have hlimit := hpoll.limit w hw
  rw [← hpoll.written] at hlimit
  rw [heq]
  by_cases hsmall : (poll source sink len st).1.written +
      (write source sink readUntilChar (poll source sink len st).1 w).1 < 2 ^ 32
  · left
    simp only [hsmall, and_true, Classical.not_imp] at hbad
    obtain ⟨hfound, hshort⟩ := hbad
    obtain ⟨k, hlast⟩ := Option.isSome_iff_exists.mp hfound
    have htransfer := transfer_some hpolled hwindow hlimit hsmall hlast
    exact ⟨htransfer.1, fun hdelivered => hshort (htransfer.2.mp hdelivered)⟩
  · right
    have hwrite := write_spec sink readUntilChar hwindow
    have hcut := cut_le source readUntilChar (poll source sink len st).1 w
    have hcontent := source.window_le_content (poll source sink len st).1.source
    have hlength := source.window_le (poll source sink len st).1.source
    have hadvanced := hpolled.advanced
    unfold Overfull
    rw [transfer_dest, hwrite.2, hpolled.received]
    unfold passed
    simp only [List.length_append, List.length_take, List.length_drop]
    omega

theorem sendLoop_overfull {first : SendState σ δ} (patience : Nat) (st : SendState σ δ)
    (h : Overfull sink first st) (hsmall : st.written < 2 ^ 32) :
    ¬ Delivered source sink len readUntilChar first
      (sendLoop source sink len readUntilChar patience st) := by
  have hkeeps := iteration_keeps source sink len readUntilChar st hsmall
  have hnext : Overfull sink first (iteration source sink len readUntilChar st).1 :=
    Nat.le_trans h hkeeps.2
  induction patience generalizing st with
  | zero =>
    unfold sendLoop
    split
    · exact not_delivered_of_overfull hnext hkeeps.1
    · exact not_delivered_of_overfull h hsmall
  | succ patience ih =>
    unfold sendLoop
    simp only
    split
    · split
      · exact not_delivered_of_overfull hnext hkeeps.1
      · have hagain := iteration_keeps source sink len readUntilChar _ hkeeps.1
        exact ih _ hnext hkeeps.1 hagain (Nat.le_trans hnext hagain.2)
    · exact not_delivered_of_overfull h hsmall

theorem sendLoop_delivers {first : SendState σ δ} (patience : Nat) (st : SendState σ δ)
    (h : Moved source sink len readUntilChar first st) :
    Delivered source sink len readUntilChar first
        (sendLoop source sink len readUntilChar patience st) ↔
      TakesAllAlong source sink len readUntilChar patience st := by
  induction patience generalizing st with
  | zero =>
    unfold sendLoop TakesAllAlong
    by_cases hgoes : Goes len st
    · rw [if_pos hgoes, imp_iff_right hgoes]
      by_cases htakes : TakesAll source sink len readUntilChar st
      · have hiteration := iteration_takesAll h htakes
        refine iff_of_true ?_ htakes
        cases hstop : (iteration source sink len readUntilChar st).2 with
        | true => exact hiteration.2 hstop
        | false => exact moved_delivered (hiteration.1 hstop)
      · refine iff_of_false ?_ htakes
        cases iteration_spoils h htakes with
        | inl hshort => exact hshort.2
        | inr hover => exact not_delivered_of_overfull hover (iteration_keeps source sink len readUntilChar st h.small).1
    · rw [if_neg hgoes]
      exact iff_of_true (moved_delivered h) (fun hcontra => absurd hcontra hgoes)
  | succ patience ih =>
    unfold sendLoop TakesAllAlong
    simp only
    by_cases hgoes : Goes len st
    · rw [if_pos hgoes, imp_iff_right hgoes]
      by_cases htakes : TakesAll source sink len readUntilChar st
      · have hiteration := iteration_takesAll h htakes
        cases hstop : (iteration source sink len readUntilChar st).2 with
        | true => simp [htakes, hiteration.2 hstop]
        | false => simp [htakes, ih _ (hiteration.1 hstop)]
      · refine iff_of_false ?_ (fun hboth => htakes hboth.1)
        cases iteration_spoils h htakes with
        | inl hshort =>
          rw [if_pos hshort.1]
          exact hshort.2
        | inr hover =>
          have hsmall := (iteration_keeps source sink len readUntilChar st h.small).1
          split
          · exact not_delivered_of_overfull hover hsmall
          · exact sendLoop_overfull patience _ hover hsmall
    · rw [if_neg hgoes]
      exact iff_of_true (moved_delivered h) (fun hcontra => absurd hcontra hgoes)

variable (source sink len readUntilChar)

theorem moved_refl (s : σ) (d : δ) :
    Moved source sink len readUntilChar ⟨s, d, 0⟩ ⟨s, d, 0⟩ where
  limit _ := Nat.zero_le _
  grown := List.prefix_refl _
  received := by simp [passed]
  clean := by simp [passed]
  advanced := rfl
  small := Nat.two_pow_pos 32

/-- `SendGenericPeekBuffer` delivers exactly if the destination takes, in each
iteration that sees the terminator, all bytes in front of it, and its counter
does not wrap. -/
theorem sendGenericPeekBuffer_delivers (patience : Nat) (s : σ) (d : δ) :
    Delivered source sink len readUntilChar ⟨s, d, 0⟩
        (sendGenericPeekBuffer source sink len readUntilChar patience s d) ↔
      TakesAllAlong source sink len readUntilChar patience ⟨s, d, 0⟩ :=
  sendLoop_delivers patience _ (moved_refl source sink len readUntilChar s d)

end Send

theorem short_write_drops_other_byte :
    ¬ Delivered S2Stream.asSource S2Stream.asDestination (-1) 10
        ⟨⟨[97, 98, 10], -1, [], [], by decide⟩, ⟨[], -1, [], [false], by decide⟩, 0⟩
        (sendGenericPeekBuffer S2Stream.asSource S2Stream.asDestination (-1) 10 0
          ⟨[97, 98, 10], -1, [], [], by decide⟩ ⟨[], -1, [], [false], by decide⟩) := by
  intro hdelivered
  have hadvanced := hdelivered.advanced
  revert hadvanced
  decide

end Esp8266.Streams
