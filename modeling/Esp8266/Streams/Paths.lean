import Esp8266.Streams.SendRegular

/-! The three loops of StreamSend.cpp between a source in memory and a destination that takes all:
each moves what stands before the limit or the terminator, however the source is cut. -/
namespace Esp8266.Streams

structure View where
  rest : List UInt8
  received : List UInt8
  count : Nat

namespace View
variable (len : Int) (stop : UInt8 → Bool)

def move (v : View) (w skip : Nat) : View :=
  ⟨v.rest.drop (w + skip), v.received ++ v.rest.take w, sizeT (v.count + w)⟩

def reach (v : View) : List UInt8 :=
  if maxLen len = 0 then v.rest else v.rest.take (maxLen len - v.count)

def finish (v : View) : View :=
  let sent := (v.reach len).takeWhile (fun c => !stop c)
  v.move sent.length (if sent.length < (v.reach len).length then 1 else 0)

variable {len stop} {v : View} {w : Nat}

theorem take_reach (hw : w ≤ (v.reach len).length) : v.rest.take w = (v.reach len).take w := by
  unfold reach at hw ⊢
  split
  · rfl
  · rename_i hlimit
    rw [if_neg hlimit, List.length_take] at hw
    rw [List.take_take, Nat.min_eq_left (by omega)]

theorem reach_length_le : (v.reach len).length ≤ v.rest.length := by
  unfold reach
  split
  · exact Nat.le_refl _
  · rw [List.length_take]
    exact Nat.min_le_right _ _

theorem reach_move (hlen : maxLen len < 2 ^ 32) (hcount : v.count < 2 ^ 32)
    (hw : w ≤ (v.reach len).length) : (v.move w 0).reach len = (v.reach len).drop w := by
  unfold reach at hw ⊢
  by_cases hlimit : maxLen len = 0
  · rw [if_pos hlimit, if_pos hlimit]
    rfl
  · rw [if_neg hlimit, List.length_take] at hw
    rw [if_neg hlimit, if_neg hlimit, List.drop_take]
    have hsize : sizeT (v.count + w) = v.count + w := Nat.mod_eq_of_lt (by omega)
    show (v.rest.drop w).take (maxLen len - sizeT (v.count + w)) = _
    rw [hsize]
    congr 1
    omega

theorem move_move (n skip : Nat) : (v.move w 0).move n skip = v.move (w + n) skip := by
  have hrest : (v.rest.drop w).drop (n + skip) = v.rest.drop (w + n + skip) := by
    rw [List.drop_drop, Nat.add_assoc]
  have hcount : sizeT (sizeT (v.count + w) + n) = sizeT (v.count + (w + n)) := by
    unfold sizeT
    rw [Nat.mod_add_mod, Nat.add_assoc]
  show View.mk _ _ _ = View.mk _ _ _
  rw [List.take_add, ← List.append_assoc, ← hcount, ← hrest]
  rfl

theorem move_zero (hcount : v.count < 2 ^ 32) : v.move 0 0 = v := by
  have hsize : sizeT v.count = v.count := Nat.mod_eq_of_lt hcount
  show View.mk v.rest (v.received ++ []) (sizeT v.count) = v
  rw [List.append_nil, hsize]

theorem finish_stay (hcount : v.count < 2 ^ 32) (hreach : v.reach len = []) :
    v.finish len stop = v := by
  unfold finish
  rw [hreach]
  exact move_zero hcount

theorem finish_limit (hcount : v.count < 2 ^ 32)
    (h : ¬ (maxLen len = 0 ∨ v.count < maxLen len)) : v.finish len stop = v := by
  rw [not_or] at h
  apply finish_stay hcount
  unfold reach
  rw [if_neg h.1, Nat.sub_eq_zero_of_le (Nat.le_of_not_lt h.2), List.take_zero]

theorem finish_move (hlen : maxLen len < 2 ^ 32) (hcount : v.count < 2 ^ 32)
    (hw : w ≤ (v.reach len).length) (hclean : ∀ c ∈ v.rest.take w, stop c = false) :
    (v.move w 0).finish len stop = v.finish len stop := by
  have hsplit : (v.reach len).takeWhile (fun c => !stop c) =
      (v.reach len).take w ++ ((v.reach len).drop w).takeWhile (fun c => !stop c) := by
    rw [take_reach hw] at hclean
    conv => lhs; rw [← List.take_append_drop w (v.reach len)]
    apply List.takeWhile_append_of_pos
    intro c hc
    rw [hclean c hc]
    rfl
  unfold finish
  rw [reach_move hlen hcount hw, hsplit]
  simp only [List.length_append, List.length_take, Nat.min_eq_left hw, List.length_drop]
  rw [move_move]
  congr 1
  split <;> split <;> omega

theorem finish_found {c : UInt8} (hw : w < (v.reach len).length) (hat : v.rest[w]? = some c)
    (hstop : stop c = true) (hclean : ∀ c ∈ v.rest.take w, stop c = false) :
    v.finish len stop = v.move w 1 := by
  have hbefore := take_reach (Nat.le_of_lt hw)
  have hhere : (v.reach len)[w]? = some c := by
    have htake : v.rest.take (w + 1) = (v.reach len).take (w + 1) := take_reach hw
    rw [← List.getElem?_take_of_lt (Nat.lt_succ_self w), ← htake,
      List.getElem?_take_of_lt (Nat.lt_succ_self w)]
    exact hat
  have hsent : (v.reach len).takeWhile (fun c => !stop c) = (v.reach len).take w := by
    rw [hbefore] at hclean
    have hdrop : (v.reach len).drop w = c :: (v.reach len).drop (w + 1) := by
      rw [List.drop_eq_getElem_cons hw]
      rw [List.getElem?_eq_getElem hw] at hhere
      rw [Option.some.inj hhere]
    conv => lhs; rw [← List.take_append_drop w (v.reach len), hdrop]
    rw [List.takeWhile_append_of_pos (fun c hc => by rw [hclean c hc]; rfl),
      List.takeWhile_cons_of_neg (by rw [hstop]; decide), List.append_nil]
  unfold finish
  rw [hsent]
  simp only [List.length_take, Nat.min_eq_left (Nat.le_of_lt hw), if_pos hw]

end View

inductive Progress (len : Int) (stop : UInt8 → Bool) (v : View) : View → Bool → Prop where
  | exhausted (hrest : v.rest = []) : Progress len stop v v true
  | moved (w : Nat) (hpos : 0 < w) (hw : w ≤ (v.reach len).length)
      (hclean : ∀ c ∈ v.rest.take w, stop c = false) : Progress len stop v (v.move w 0) false
  | found (w : Nat) (c : UInt8) (hw : w < (v.reach len).length) (hat : v.rest[w]? = some c)
      (hstop : stop c = true) (hclean : ∀ c ∈ v.rest.take w, stop c = false) :
      Progress len stop v (v.move w 1) true

theorem Progress.stops {len : Int} {stop : UInt8 → Bool} {v v' : View}
    (h : Progress len stop v v' true) (hcount : v.count < 2 ^ 32) : v' = v.finish len stop := by
  cases h with
  | exhausted hrest =>
    have hreach : v.reach len = [] := by
      have hle : (v.reach len).length ≤ v.rest.length := View.reach_length_le
      rw [hrest, List.length_nil] at hle
      exact List.eq_nil_of_length_eq_zero (Nat.le_zero.mp hle)
    exact (View.finish_stay hcount hreach).symm
  | found w c hw hat hstop hclean => exact (View.finish_found hw hat hstop hclean).symm

theorem Progress.goes_on {len : Int} {stop : UInt8 → Bool} {v v' : View}
    (h : Progress len stop v v' false) (hlen : maxLen len < 2 ^ 32) (hcount : v.count < 2 ^ 32) :
    v'.rest.length < v.rest.length ∧ v'.count < 2 ^ 32 ∧
      v'.finish len stop = v.finish len stop := by
  cases h with
  | moved w hpos hw hclean =>
    have hle : (v.reach len).length ≤ v.rest.length := View.reach_length_le
    refine ⟨?_, Nat.mod_lt _ (by decide), View.finish_move hlen hcount hw hclean⟩
    show (v.rest.drop (w + 0)).length < _
    rw [List.length_drop]
    omega

theorem timedLoop_finish {S : Type} {goes : S → Prop} [DecidablePred goes]
    {iteration : S → S × Bool} (view : S → View) (ok : S → Prop) (len : Int)
    (stop : UInt8 → Bool) (hlen : maxLen len < 2 ^ 32)
    (hgoes : ∀ st, goes st ↔ maxLen len = 0 ∨ (view st).count < maxLen len)
    (hstep : ∀ st, ok st → goes st → ok (iteration st).1 ∧
      Progress len stop (view st) (view (iteration st).1) (iteration st).2)
    (patience : Nat) (st : S) (hok : ok st) (hpatience : (view st).rest.length ≤ patience)
    (hcount : (view st).count < 2 ^ 32) :
    ok (timedLoop goes iteration patience st) ∧
      view (timedLoop goes iteration patience st) = (view st).finish len stop := by
  induction patience generalizing st with
  | zero =>
    unfold timedLoop
    split
    · rename_i hgo
      obtain ⟨hnext, hprogress⟩ := hstep st hok hgo
      refine ⟨hnext, ?_⟩
      -- nothing is left, so the iteration broke
      cases hflag : (iteration st).2 with
      | true =>
        rw [hflag] at hprogress
        exact hprogress.stops hcount
      | false =>
        rw [hflag] at hprogress
        have := (hprogress.goes_on hlen hcount).1
        omega
    · rename_i hstays
      rw [hgoes] at hstays
      exact ⟨hok, (View.finish_limit hcount hstays).symm⟩
  | succ patience ih =>
    unfold timedLoop
    split
    · rename_i hgo
      obtain ⟨hnext, hprogress⟩ := hstep st hok hgo
      simp only
      cases hflag : (iteration st).2 with
      | true =>
        rw [hflag] at hprogress
        exact ⟨hnext, hprogress.stops hcount⟩
      | false =>
        rw [hflag] at hprogress
        obtain ⟨hshorter, hcount', hfinish⟩ := hprogress.goes_on hlen hcount
        rw [← hfinish]
        exact ih _ hnext (by omega) hcount'
    · rename_i hstays
      rw [hgoes] at hstays
      exact ⟨hok, (View.finish_limit hcount hstays).symm⟩

namespace Chunked

theorem rest_consume (s : Chunked) (n : Nat) : (s.consume n).rest = s.rest.drop n := by
  show s.content.drop (min (s.position + n) s.content.length) = (s.content.drop s.position).drop n
  rw [List.drop_drop]
  by_cases hn : s.position + n ≤ s.content.length
  · rw [Nat.min_eq_left hn]
  · rw [Nat.min_eq_right (by omega), List.drop_length, List.drop_eq_nil_of_le (by omega)]

theorem poll_shown (s : Chunked) :
    (s.poll.1 = 0 ↔ s.rest = []) ∧ s.poll.1 ≤ s.rest.length ∧ s.poll.2.rest = s.rest := by
  have hpos := s.chunk_pos s.polls
  have hlength : s.rest.length = s.content.length - s.position := List.length_drop
  have hshown : s.poll.1 = min (s.chunk s.polls) (s.content.length - s.position) := rfl
  rw [← List.length_eq_zero_iff]
  exact ⟨by omega, by omega, rfl⟩

end Chunked

structure Accepting (sink : Destination δ) : Prop where
  room : ∀ d, 0 < (sink.availableForWrite d).1
  takes : ∀ d bytes, (sink.write d bytes).1 = bytes.length

theorem Accepting.received {sink : Destination δ} (h : Accepting sink) (d : δ)
    (bytes : List UInt8) : sink.received (sink.write d bytes).2 = sink.received d ++ bytes := by
  rw [sink.received_write, h.takes, List.take_length]

section
variable {δ : Type} {sink : Destination δ} {len readUntilChar : Int}

def viewOf (sink : Destination δ) (st : SendState Chunked δ) : View :=
  ⟨st.source.rest, sink.received st.dest, st.written⟩

def stops (readUntilChar : Int) (c : UInt8) : Bool := terminator readUntilChar = some c

theorem limited_reach {v : View} (hgoes : maxLen len = 0 ∨ v.count < maxLen len) {w : Nat}
    (hpos : 0 < w) (hw : w ≤ v.rest.length) :
    0 < (if maxLen len ≠ 0 then min w (maxLen len - v.count) else w) ∧
      (if maxLen len ≠ 0 then min w (maxLen len - v.count) else w) ≤ (v.reach len).length := by
  unfold View.reach
  by_cases hlimit : maxLen len = 0
  · rw [if_neg (fun hne => hne hlimit), if_pos hlimit]
    exact ⟨hpos, hw⟩
  · rw [if_pos hlimit, if_neg hlimit, List.length_take]
    omega

theorem poll_chunked (h : Accepting sink) (st : SendState Chunked δ) (hgoes : Goes len st) :
    (st.source.rest = [] ∧ (poll Chunked.asSource sink len st).2 = none ∨
      ∃ w, (poll Chunked.asSource sink len st).2 = some w ∧ 0 < w ∧
        w ≤ ((viewOf sink st).reach len).length) ∧
      viewOf sink (poll Chunked.asSource sink len st).1 = viewOf sink st := by
  obtain ⟨hnone, hle, hrest⟩ := st.source.poll_shown
  have hroom := h.room st.dest
  have hpolled : ∀ dest, sink.received dest = sink.received st.dest →
      viewOf sink ⟨st.source.poll.2, dest, st.written⟩ = viewOf sink st := by
    intro dest hdest
    unfold viewOf
    rw [hrest, hdest]
  unfold poll
  by_cases hend : st.source.rest = []
  · have hzero : st.source.poll.1 = 0 := hnone.mpr hend
    simp only [Chunked.asSource, hzero, and_self, if_true]
    exact ⟨.inl ⟨hend, trivial⟩, hpolled _ rfl⟩
  · have hsome : st.source.poll.1 ≠ 0 := fun hzero => hend (hnone.mp hzero)
    have hfree : (sink.availableForWrite st.dest).1 ≠ 0 := by omega
    simp only [Chunked.asSource, hsome, hfree, false_and, if_false]
    refine ⟨.inr ⟨_, rfl, ?_⟩, hpolled _ (sink.received_available _)⟩
    exact limited_reach (v := viewOf sink st) hgoes (by omega) (by
      show _ ≤ st.source.rest.length
      omega)

theorem last_cases (readUntilChar : Int) (st : SendState Chunked δ) (w : Nat) (hw : w ≤ st.source.rest.length) :
    last Chunked.asSource readUntilChar st w = none ∧
        (∀ c ∈ st.source.rest.take w, stops readUntilChar c = false) ∨
      ∃ k c, last Chunked.asSource readUntilChar st w = some k ∧ k < w ∧
        st.source.rest[k]? = some c ∧ stops readUntilChar c = true ∧
          ∀ c ∈ st.source.rest.take k, stops readUntilChar c = false := by
  unfold last stops
  cases hterminator : terminator readUntilChar with
  | none => exact .inl ⟨rfl, fun _ _ => rfl⟩
  | some t =>
    simp only
    cases hfound : memchr (Chunked.asSource.peekBuffer st.source) t w with
    | none =>
      left
      refine ⟨rfl, ?_⟩
      intro c hc
      have hnot := List.findIdx?_eq_none_iff.mp hfound c hc
      simp only [decide_eq_false_iff_not] at hnot ⊢
      exact fun heq => hnot (Option.some.inj heq).symm
    | some k =>
      right
      obtain ⟨hk, heq, hbefore⟩ := List.findIdx?_eq_some_iff_getElem.mp hfound
      simp only [List.getElem_take, decide_eq_true_eq, List.length_take] at heq hbefore hk
      have hlength : k < st.source.rest.length := by omega
      refine ⟨k, t, rfl, by omega, ?_, by simp, ?_⟩
      · rw [List.getElem?_eq_getElem hlength]
        exact congrArg some heq
      · intro c hc
        obtain ⟨j, hj, hval⟩ := List.mem_take_iff_getElem.mp hc
        have hne := hbefore j (by omega)
        simp only [decide_eq_false_iff_not]
        intro hsame
        exact hne (hval.trans (Option.some.inj hsame).symm)

theorem transfer_progress (h : Accepting sink) (st : SendState Chunked δ)
    (hcount : st.written < 2 ^ 32) {w : Nat} (hpos : 0 < w)
    (hw : w ≤ ((viewOf sink st).reach len).length) :
    Progress len (stops readUntilChar) (viewOf sink st)
      (viewOf sink (transfer Chunked.asSource sink readUntilChar st w).1)
      (transfer Chunked.asSource sink readUntilChar st w).2 := by
  have hle : w ≤ st.source.rest.length := Nat.le_trans hw View.reach_length_le
  -- the bytes the destination is offered, and what the source and the count say then
  have hwritten : ∀ n, 0 < n → n ≤ w →
      viewOf sink (consume Chunked.asSource st (sink.write st.dest (st.source.rest.take n)).1
        (sink.write st.dest (st.source.rest.take n)).2) = (viewOf sink st).move n 0 := by
    intro n hn hnw
    have htaken : (sink.write st.dest (st.source.rest.take n)).1 = n := by
      rw [h.takes, List.length_take, Nat.min_eq_left (by omega)]
    unfold consume viewOf View.move
    rw [htaken, if_neg (by omega)]
    simp only [h.received, Nat.add_zero]
    rw [← Chunked.rest_consume]
    rfl
  rcases last_cases readUntilChar st w hle with ⟨hlast, hclean⟩ |
    ⟨k, c, hlast, hk, hat, hstop, hclean⟩
  · have hall : transfer Chunked.asSource sink readUntilChar st w =
        (consume Chunked.asSource st (sink.write st.dest (st.source.rest.take w)).1
          (sink.write st.dest (st.source.rest.take w)).2, false) := by
      unfold transfer write cut
      simp only [hlast, Option.isSome_none, Bool.false_eq_true, if_false,
        if_neg (show w ≠ 0 by omega)]
      rfl
    rw [hall, hwritten w hpos (Nat.le_refl w)]
    exact .moved w hpos hw hclean
  · have hfound : viewOf sink (transfer Chunked.asSource sink readUntilChar st w).1 =
        (viewOf sink st).move k 1 ∧ (transfer Chunked.asSource sink readUntilChar st w).2 = true := by
      unfold transfer write cut
      simp only [hlast, Option.isSome_some, if_true, Nat.min_eq_left (Nat.le_of_lt hk), and_true]
      by_cases hzero : k = 0
      · have hsize : sizeT st.written = st.written := Nat.mod_eq_of_lt hcount
        subst hzero
        unfold consume viewOf View.move
        simp only [if_true, List.take_zero, List.append_nil, Nat.zero_add, Nat.add_zero, hsize]
        rw [← Chunked.rest_consume]
        rfl
      · have hmoved := hwritten k (by omega) (by omega)
        unfold viewOf View.move at hmoved ⊢
        simp only [View.mk.injEq] at hmoved ⊢
        simp only [if_neg hzero]
        refine ⟨?_, hmoved.2⟩
        show (Chunked.consume _ 1).rest = _
        rw [Chunked.rest_consume, ← List.drop_drop, ← Nat.add_zero k, ← hmoved.1]
        rfl
    rw [hfound.1, hfound.2]
    exact .found k c (by omega) hat hstop hclean

theorem peek_progress (h : Accepting sink) (st : SendState Chunked δ)
    (hcount : st.written < 2 ^ 32) (hgoes : Goes len st) :
    (iteration Chunked.asSource sink len readUntilChar st).1.written < 2 ^ 32 ∧
      Progress len (stops readUntilChar) (viewOf sink st)
        (viewOf sink (iteration Chunked.asSource sink len readUntilChar st).1)
        (iteration Chunked.asSource sink len readUntilChar st).2 := by
  refine ⟨(iteration_keeps Chunked.asSource sink len readUntilChar st hcount).1, ?_⟩
  obtain ⟨hfound, hview⟩ := poll_chunked h st hgoes
  have hwritten : (poll Chunked.asSource sink len st).1.written = st.written :=
    congrArg View.count hview
  unfold iteration
  rcases hfound with ⟨hend, hnone⟩ | ⟨w, hsome, hpos, hw⟩
  · simp only [hnone, hview]
    exact .exhausted hend
  · obtain ⟨n, rfl⟩ : ∃ n, w = n + 1 := ⟨w - 1, by omega⟩
    simp only [hsome]
    rw [← hview] at hw ⊢
    exact transfer_progress h _ (by rw [hwritten]; exact hcount) hpos hw

theorem sendLoop_timed (patience : Nat) (st : SendState Chunked δ) :
    sendLoop Chunked.asSource sink len readUntilChar patience st =
      timedLoop (Goes len) (iteration Chunked.asSource sink len readUntilChar) patience st := by
  induction patience generalizing st with
  | zero => rfl
  | succ patience ih =>
    unfold sendLoop timedLoop
    simp only [ih]

theorem pollRegular_chunked (h : Accepting sink) (st : RegularState Chunked δ) :
    (st.source.rest = [] ∧ (pollRegular Chunked.asReader sink st).2 = none ∨
      ∃ w, (pollRegular Chunked.asReader sink st).2 = some w ∧ 0 < w ∧
        w ≤ st.source.rest.length) ∧
      viewOf sink (pollRegular Chunked.asReader sink st).1.toSendState =
        viewOf sink st.toSendState ∧
      (pollRegular Chunked.asReader sink st).1.error = st.error := by
  obtain ⟨hnone, hle, hrest⟩ := st.source.poll_shown
  have hroom := h.room st.dest
  have hpolled : ∀ dest, sink.received dest = sink.received st.dest →
      viewOf sink ⟨st.source.poll.2, dest, st.written⟩ = viewOf sink st.toSendState := by
    intro dest hdest
    unfold viewOf
    rw [hrest, hdest]
  unfold pollRegular
  by_cases hend : st.source.rest = []
  · have hzero : st.source.poll.1 = 0 := hnone.mpr hend
    simp only [Chunked.asReader, hzero, and_self, if_true]
    exact ⟨.inl ⟨hend, trivial⟩, hpolled _ rfl, trivial⟩
  · have hsome : st.source.poll.1 ≠ 0 := fun hzero => hend (hnone.mp hzero)
    have hfree : (sink.availableForWrite st.dest).1 ≠ 0 := by omega
    simp only [Chunked.asReader, hsome, hfree, false_and, if_false]
    exact ⟨.inr ⟨_, rfl, by omega, by omega⟩, hpolled _ (sink.received_available _), trivial⟩

structure Sound (st : RegularState Chunked δ) : Prop where
  error : st.error = none
  count : st.written < 2 ^ 32

theorem stops_iff (hchar : readUntilChar < 256) (c : UInt8) :
    (c.toNat : Int) = readUntilChar ↔ stops readUntilChar c = true := by
  have hc := c.toNat_lt
  unfold stops terminator
  split
  · rename_i hterminator
    simp only [Option.some.injEq, decide_eq_true_eq]
    constructor
    · rintro rfl
      rw [Int.toNat_natCast, UInt8.ofNat_toNat]
    · rintro rfl
      rw [UInt8.toNat_ofNat']
      omega
  · simp
    omega

theorem until_progress (h : Accepting sink) (hchar : readUntilChar < 256)
    (st : RegularState Chunked δ) (hok : Sound st) (hgoes : GoesOn len st) :
    Sound (untilIteration Chunked.asReader sink readUntilChar st).1 ∧
      Progress len (stops readUntilChar) (viewOf sink st.toSendState)
        (viewOf sink (untilIteration Chunked.asReader sink readUntilChar st).1.toSendState)
        (untilIteration Chunked.asReader sink readUntilChar st).2 := by
  obtain ⟨hfound, hview, herror⟩ := pollRegular_chunked h st
  generalize hpolled : pollRegular Chunked.asReader sink st = polled at hfound hview herror
  have hcount : polled.1.written = st.written := congrArg View.count hview
  have hrest : polled.1.source.rest = st.source.rest := congrArg View.rest hview
  have hsound : Sound polled.1 := ⟨herror.trans hok.error, by rw [hcount]; exact hok.count⟩
  rw [← hview]
  unfold untilIteration
  simp only [hpolled]
  rcases hfound with ⟨hend, hnone⟩ | ⟨w, hsome, hpos, hw⟩
  · simp only [hnone]
    exact ⟨hsound, .exhausted (hrest.trans hend)⟩
  · obtain ⟨c, rest, hcons⟩ : ∃ c rest, polled.1.source.rest = c :: rest := by
      cases hleft : polled.1.source.rest with
      | nil =>
        rw [← hrest, hleft, List.length_nil] at hw
        omega
      | cons c rest => exact ⟨c, rest, rfl⟩
    have hreach : 0 < ((viewOf sink polled.1.toSendState).reach len).length := by
      have hgo : maxLen len = 0 ∨ (viewOf sink polled.1.toSendState).count < maxLen len := by
        show _ ∨ polled.1.written < _
        rw [hcount]
        exact hgoes
      have hone : 1 ≤ (viewOf sink polled.1.toSendState).rest.length := by
        show 1 ≤ polled.1.source.rest.length
        rw [hcons]
        exact Nat.succ_pos _
      have := limited_reach hgo Nat.one_pos hone
      omega
    have hread : Chunked.asReader.read polled.1.source =
        (some c, polled.1.source.consume 1) := by
      unfold Chunked.asReader
      simp only [hcons, List.head?_cons, if_neg (List.cons_ne_nil c rest)]
    simp only [hsome, hread]
    split
    · rename_i hstop
      have hsize : sizeT polled.1.written = polled.1.written := Nat.mod_eq_of_lt hsound.count
      have hmoved : viewOf sink { polled.1.toSendState with
          source := polled.1.source.consume 1 } = (viewOf sink polled.1.toSendState).move 0 1 := by
        unfold viewOf View.move
        simp only [List.take_zero, List.append_nil, Nat.add_zero, hsize]
        rw [Chunked.rest_consume]
      refine ⟨⟨hsound.error, hsound.count⟩, ?_⟩
      rw [hmoved]
      refine .found 0 c hreach ?_ ((stops_iff hchar c).mp hstop)
        (fun d hd => absurd hd (by rw [List.take_zero]; exact List.not_mem_nil))
      show polled.1.source.rest[0]? = some c
      rw [hcons]
      rfl
    · rename_i hother
      have htaken : (sink.write polled.1.dest [c]).1 = 1 := h.takes _ _
      rw [if_neg (fun hne => hne htaken)]
      refine ⟨⟨hsound.error, Nat.mod_lt _ (by decide)⟩, ?_⟩
      have hmoved : viewOf sink ⟨polled.1.source.consume 1, (sink.write polled.1.dest [c]).2,
          sizeT (polled.1.written + 1)⟩ = (viewOf sink polled.1.toSendState).move 1 0 := by
        unfold viewOf View.move
        simp only [h.received, Chunked.rest_consume, hcons]
        rfl
      rw [hmoved]
      refine .moved 1 Nat.one_pos hreach ?_
      intro d hd
      have hd' : d = c := by
        have hmem : d ∈ polled.1.source.rest.take 1 := hd
        rw [hcons] at hmem
        simpa using hmem
      rw [hd', Bool.eq_false_iff]
      exact fun hstop => hother ((stops_iff hchar c).mpr hstop)

theorem stops_negative (hchar : readUntilChar < 0) (c : UInt8) :
    stops readUntilChar c = false := by
  unfold stops terminator
  rw [if_neg (by omega)]
  rfl

theorem regular_progress (h : Accepting sink) (hchar : readUntilChar < 0)
    (st : RegularState Chunked δ) (hok : Sound st) (hgoes : GoesOn len st) :
    Sound (regularIteration Chunked.asReader sink len st).1 ∧
      Progress len (stops readUntilChar) (viewOf sink st.toSendState)
        (viewOf sink (regularIteration Chunked.asReader sink len st).1.toSendState)
        (regularIteration Chunked.asReader sink len st).2 := by
  obtain ⟨hfound, hview, herror⟩ := pollRegular_chunked h st
  generalize hpolled : pollRegular Chunked.asReader sink st = polled at hfound hview herror
  have hcount : polled.1.written = st.written := congrArg View.count hview
  have hrest : polled.1.source.rest = st.source.rest := congrArg View.rest hview
  have hsound : Sound polled.1 := ⟨herror.trans hok.error, by rw [hcount]; exact hok.count⟩
  rw [← hview]
  unfold regularIteration
  simp only [hpolled]
  rcases hfound with ⟨hend, hnone⟩ | ⟨w, hsome, hpos, hw⟩
  · simp only [hnone]
    exact ⟨hsound, .exhausted (hrest.trans hend)⟩
  · have hgo : maxLen len = 0 ∨ (viewOf sink polled.1.toSendState).count < maxLen len := by
      show _ ∨ polled.1.written < _
      rw [hcount]
      exact hgoes
    have hreach := limited_reach (v := viewOf sink polled.1.toSendState) hgo hpos
      (by rw [show (viewOf sink polled.1.toSendState).rest = st.source.rest from hrest]; exact hw)
    simp only [hsome]
    generalize hlimited : (if maxLen len ≠ 0 then min w (maxLen len - polled.1.written) else w) = m
    have hm : 0 < m ∧ m ≤ ((viewOf sink polled.1.toSendState).reach len).length := hlimited ▸ hreach
    have hbuffer : 0 < min m temporaryStackBufferSize ∧ min m temporaryStackBufferSize ≤ m := by
      unfold temporaryStackBufferSize
      omega
    generalize min m temporaryStackBufferSize = n at hbuffer
    have hfits : n ≤ ((viewOf sink polled.1.toSendState).reach len).length := by omega
    have hlength : (polled.1.source.rest.take n).length = n := by
      rw [List.length_take]
      exact Nat.min_eq_left (Nat.le_trans hfits View.reach_length_le)
    have hread : Chunked.asReader.readBuffer polled.1.source n =
        (some (polled.1.source.rest.take n), polled.1.source.consume n) := by
      show (some _, polled.1.source.consume (polled.1.source.rest.take n).length) = _
      rw [hlength]
    have htaken : (sink.write polled.1.dest (polled.1.source.rest.take n)).1 = n :=
      (h.takes _ _).trans hlength
    simp only [if_neg (show n ≠ 0 by omega), hread, htaken, hlength, ne_eq, not_true_eq_false,
      if_false]
    refine ⟨⟨hsound.error, Nat.mod_lt _ (by decide)⟩, ?_⟩
    have hmoved : viewOf sink ⟨polled.1.source.consume n,
        (sink.write polled.1.dest (polled.1.source.rest.take n)).2,
        sizeT (polled.1.written + n)⟩ = (viewOf sink polled.1.toSendState).move n 0 := by
      unfold viewOf View.move
      simp only [h.received, Chunked.rest_consume, Nat.add_zero]
    rw [hmoved]
    exact .moved n hbuffer.1 hfits (fun c _ => stops_negative hchar c)

structure Agrees (sink : Destination δ) (len : Int) (direct : SendState Chunked δ)
    (other : RegularState Chunked δ) : Prop where
  written : other.written = direct.written
  received : sink.received other.dest = sink.received direct.dest
  rest : other.source.rest = direct.source.rest
  report : ∀ timeoutMs timedOut, regularReport len timeoutMs timedOut other =
    .inr (sendReport len .success timeoutMs timedOut direct)

theorem agrees_of_view {direct : SendState Chunked δ} {other : RegularState Chunked δ}
    (hview : viewOf sink other.toSendState = viewOf sink direct) (herror : other.error = none) :
    Agrees sink len direct other := by
  have hwritten : other.written = direct.written := congrArg View.count hview
  refine ⟨hwritten, congrArg View.received hview, congrArg View.rest hview, ?_⟩
  intro timeoutMs timedOut
  unfold regularReport sendReport
  rw [herror, hwritten]

theorem peek_finish (readUntilChar : Int) (h : Accepting sink) (hlen : len < 2 ^ 31) (s : Chunked) (d : δ)
    (patience : Nat) (hpatience : s.rest.length ≤ patience) :
    viewOf sink (sendGenericPeekBuffer Chunked.asSource sink len readUntilChar patience s d) =
      (viewOf sink ⟨s, d, 0⟩).finish len (stops readUntilChar) := by
  unfold sendGenericPeekBuffer
  rw [sendLoop_timed]
  exact (timedLoop_finish (viewOf sink) (fun st => st.written < 2 ^ 32) len _
    (by unfold maxLen; omega) (fun _ => Iff.rfl)
    (fun st hcount hgoes => peek_progress h st hcount hgoes) patience ⟨s, d, 0⟩
    (Nat.two_pow_pos 32) hpatience (Nat.two_pow_pos 32)).2

variable (len readUntilChar) in
/-- The three paths end alike however their sources are cut, as long as their timers outlast the
bytes: the zero-copy path and the byte-wise one with a terminator or without, and with none also
the path through the buffer. -/
theorem send_paths_agree (h : Accepting sink) (hlen : len < 2 ^ 31) (hchar : readUntilChar < 256)
    (s s' : Chunked) (hsame : s'.rest = s.rest) (d : δ) (patience patience' : Nat)
    (hpatience : s.rest.length ≤ patience) (hpatience' : s.rest.length ≤ patience') :
    Agrees sink len
        (sendGenericPeekBuffer Chunked.asSource sink len readUntilChar patience s d)
        (sendGenericRegularUntil Chunked.asReader sink len readUntilChar patience' s' d) ∧
      (readUntilChar < 0 → Agrees sink len
        (sendGenericPeekBuffer Chunked.asSource sink len readUntilChar patience s d)
        (sendGenericRegular Chunked.asReader sink len patience' s' d)) := by
  have hpeek := peek_finish readUntilChar h hlen s d patience hpatience
  have hstart : viewOf sink ⟨s', d, 0⟩ = viewOf sink ⟨s, d, 0⟩ := by
    unfold viewOf
    rw [hsame]
  have hlimit : maxLen len < 2 ^ 32 := by
    unfold maxLen
    omega
  have hfirst : Sound (⟨⟨s', d, 0⟩, none⟩ : RegularState Chunked δ) :=
    ⟨rfl, Nat.two_pow_pos 32⟩
  have hlength : (viewOf sink ⟨s', d, 0⟩).rest.length ≤ patience' := by
    rw [hstart]
    exact hpatience'
  constructor
  · obtain ⟨hsound, hview⟩ := timedLoop_finish
      (fun st : RegularState Chunked δ => viewOf sink st.toSendState) Sound len _ hlimit (fun _ => Iff.rfl)
      (fun st hok hgoes => until_progress h hchar st hok hgoes) patience' _ hfirst hlength
      (Nat.two_pow_pos 32)
    exact agrees_of_view (hview.trans (by rw [hpeek, hstart])) hsound.error
  · intro hnegative
    obtain ⟨hsound, hview⟩ := timedLoop_finish
      (fun st : RegularState Chunked δ => viewOf sink st.toSendState) Sound len _ hlimit (fun _ => Iff.rfl)
      (fun st hok hgoes => regular_progress h hnegative st hok hgoes) patience' _ hfirst hlength
      (Nat.two_pow_pos 32)
    exact agrees_of_view (hview.trans (by rw [hpeek, hstart])) hsound.error

end

def inMemory : Destination (List UInt8) where
  availableForWrite d := (32767, d)
  write d bytes := (bytes.length, d ++ bytes)
  outputCanTimeout _ := false
  received d := d
  received_available _ := rfl
  write_le _ _ := Nat.le_refl _
  received_write d bytes := by rw [List.take_length]

theorem inMemory_accepting : Accepting inMemory :=
  ⟨fun _ => show 0 < 32767 by decide, fun _ _ => rfl⟩

/-- A line, of which each poll shows `chunk` bytes at most. -/
def line (chunk : Nat) (h : 0 < chunk) : Chunked :=
  ⟨[97, 98, 10, 99], 0, 0, 0, fun _ => chunk, fun _ => h, Nat.zero_le _⟩

theorem line_paths : Agrees inMemory (-1)
      (sendGenericPeekBuffer Chunked.asSource inMemory (-1) 10 4 (line 2 (by decide)) [])
      (sendGenericRegularUntil Chunked.asReader inMemory (-1) 10 4 (line 3 (by decide)) []) ∧
    ((10 : Int) < 0 → Agrees inMemory (-1)
      (sendGenericPeekBuffer Chunked.asSource inMemory (-1) 10 4 (line 2 (by decide)) [])
      (sendGenericRegular Chunked.asReader inMemory (-1) 4 (line 3 (by decide)) [])) :=
  send_paths_agree (-1) 10 inMemory_accepting (by decide) (by decide) (line 2 (by decide))
    (line 3 (by decide)) rfl [] 4 4 (by decide) (by decide)

theorem paths_differ :
    ¬ Agrees inMemory (-1)
      (sendGenericPeekBuffer Chunked.asSource inMemory (-1) 10 0 (line 2 (by decide)) [])
      (sendGenericRegularUntil Chunked.asReader inMemory (-1) 10 0 (line 2 (by decide)) []) ∧
    ¬ Agrees inMemory (-1)
      (sendGenericPeekBuffer Chunked.asSource inMemory (-1) 266 4 (line 2 (by decide)) [])
      (sendGenericRegularUntil Chunked.asReader inMemory (-1) 266 4 (line 2 (by decide)) []) := by
  constructor
  · intro h
    exact absurd h.written (by decide)
  · intro h
    exact absurd h.written (by decide)

end Esp8266.Streams
