import Esp8266.Library.Machine
import Esp8266.Update.Hashed

/-! The buffer accounting of `UpdaterClass`: what any order of `write`, `write(T&)` and
`writeStream` keeps of `_bufferLen`, `progress()` and `_size` as long as there is no error. -/
namespace Esp8266.Update
open Esp8266.Memory Esp8266.Flash Esp8266.Runs

/-- `tame` says that no stream yields more than remains behind the buffer. -/
structure Accounted (s₀ : Sdk) (tame : Prop) (u : Updater) (calls : List Call)
    (accepted : List UInt8) : Prop where
  staged : Staged s₀ u calls accepted
  fed : Fed s₀ u accepted
  noError : u.error = .ok
  running : 0 < u.size
  small : u.size < 2 ^ 32
  command : u.command = uFlash ∨ u.command = uFs
  whole : u.progress % u.bufferSize = 0 ∨ u.progress = u.size
  within : u.streaming = false ∨ tame → u.progress + u.bufferLen ≤ u.size

def Going (tame : Prop) (u₀ u : Updater) (accepted : List UInt8) : Prop :=
  u.error = .ok → SameUpdate u₀ u ∧ (∃ calls, Accounted u₀.sdk tame u calls accepted) ∧
    (u.streaming = true → u.progress ≠ u.size)

theorem going_of_error {tame : Prop} {u₀ u : Updater} (accepted : List UInt8)
    (h : u.hasError = true) : Going tame u₀ u accepted := by
  intro hok
  exact absurd hok (of_decide_eq_true h)

theorem remaining_eq {u : Updater} (hprogress : u.progress ≤ u.size) (hsmall : u.size < 2 ^ 32) :
    u.remaining = u.size - u.progress := by
  unfold Updater.remaining
  omega

section Steps

variable {s₀ : Sdk} {tame : Prop} {u : Updater} {calls : List Call} {accepted : List UInt8}

theorem fill_accounted (h : Accounted s₀ tame u calls accepted) (bytes : List UInt8)
    (hfits : u.bufferLen + bytes.length ≤ u.bufferSize)
    (hwithin : u.streaming = false ∨ tame →
      u.progress + u.bufferLen + bytes.length ≤ u.size)
    (hbusy : u.streaming = true → u.progress ≠ u.size) :
    Accounted s₀ tame (u.fill bytes) calls (accepted ++ bytes) := by
  have hpages : bytes.length ≠ 0 → u.progress % u.bufferSize = 0 := by
    intro hbytes
    cases h.whole with
    | inl hpages => exact hpages
    | inr hdone =>
      cases hstreaming : u.streaming with
      | true => exact absurd hdone (hbusy hstreaming)
      | false =>
        have hroom := hwithin (Or.inl hstreaming)
        omega
  refine { h with
    staged := fill_staged h.staged bytes hfits hpages, fed := fill_fed h.staged h.fed bytes,
    within := ?_ }
  intro htame
  have hroom := hwithin htame
  show u.progress + (u.bufferLen + bytes.length) ≤ u.size
  omega

theorem flush_accounted (h : Accounted s₀ tame u calls accepted)
    (hfull : u.bufferLen = u.bufferSize ∨ u.progress + u.bufferLen = u.size)
    (hok : u.writeBuffer.1 = true) :
    Flushed u u.writeBuffer.2 ∧ ∃ calls', Accounted s₀ tame u.writeBuffer.2 calls' accepted := by
  obtain ⟨hflushed, new, hstaged⟩ := writeBuffer_staged h.staged hok
  have hprogress := hflushed.progress h.staged.reached
  have hsame := hflushed.same
  refine ⟨hflushed, calls ++ new, hstaged, writeBuffer_fed h.staged h.fed hok, ?_, ?_, ?_, ?_, ?_,
    ?_⟩
  · rw [hsame.error]
    exact h.noError
  · rw [hsame.size]
    exact h.running
  · rw [hsame.size]
    exact h.small
  · rw [hsame.command]
    exact h.command
  · rw [hprogress, hsame.bufferSize, hsame.size]
    cases hfull with
    | inl hpage =>
      have hpages : u.progress % u.bufferSize = 0 := by
        cases h.staged.pages with
        | inl hempty => exact absurd hempty (Nat.pos_iff_ne_zero.mp hflushed.notEmpty)
        | inr hpages => exact hpages
      rw [hpage, Nat.add_mod_right]
      exact Or.inl hpages
    | inr hlast => exact Or.inr hlast
  · intro htame
    rw [hflushed.streaming] at htame
    rw [hprogress, hflushed.empty, hsame.size]
    exact h.within htame

structure Idle (s₀ : Sdk) (tame : Prop) (u₀ u : Updater) (calls : List Call)
    (accepted : List UInt8) (count : Nat) : Prop where
  accounted : Accounted s₀ tame u calls accepted
  same : SameUpdate u₀ u
  streaming : u.streaming = false
  room : u.progress + u.bufferLen + count ≤ u.size

theorem Idle.fill {u₀ : Updater} {count : Nat} (h : Idle s₀ tame u₀ u calls accepted count)
    (bytes : List UInt8) (hfits : u.bufferLen + bytes.length ≤ u.bufferSize)
    (hcount : bytes.length ≤ count) :
    Idle s₀ tame u₀ (u.fill bytes) calls (accepted ++ bytes) (count - bytes.length) := by
  have hroom := h.room
  have hstreaming := h.streaming
  refine ⟨fill_accounted h.accounted bytes hfits (fun _ => by omega) (by simp [hstreaming]),
    h.same.trans ⟨rfl, rfl, rfl, rfl, rfl, rfl, rfl, rfl⟩, hstreaming, ?_⟩
  show u.progress + (u.bufferLen + bytes.length) + (count - bytes.length) ≤ u.size
  omega

theorem Idle.flush {u₀ : Updater} {count : Nat} (h : Idle s₀ tame u₀ u calls accepted count)
    (hfull : u.bufferLen = u.bufferSize ∨ u.progress + u.bufferLen = u.size)
    (hok : u.writeBuffer.1 = true) :
    u.writeBuffer.2.bufferLen = 0 ∧
      ∃ calls', Idle s₀ tame u₀ u.writeBuffer.2 calls' accepted count := by
  obtain ⟨hflushed, calls', haccounted⟩ := flush_accounted h.accounted hfull hok
  refine ⟨hflushed.empty, calls', haccounted, h.same.trans hflushed.same,
    hflushed.streaming.trans h.streaming, ?_⟩
  rw [hflushed.progress h.accounted.staged.reached, hflushed.empty, hflushed.same.size]
  exact h.room

theorem writeLoop_idle {u₀ : Updater} (fuel : Nat) (left : List UInt8)
    (h : Idle s₀ tame u₀ u calls accepted left.length)
    (hfuel : left.length + (if u.bufferLen = u.bufferSize then 1 else 0) < fuel) :
    ((u.writeLoop fuel left).1 = false → (u.writeLoop fuel left).2.1.hasError = true) ∧
      ((u.writeLoop fuel left).1 = true →
        ∃ taken calls', left = taken ++ (u.writeLoop fuel left).2.2 ∧
          Idle s₀ tame u₀ (u.writeLoop fuel left).2.1 calls' (accepted ++ taken)
            (u.writeLoop fuel left).2.2.length ∧
          (u.writeLoop fuel left).2.1.bufferLen + (u.writeLoop fuel left).2.2.length ≤
            (u.writeLoop fuel left).2.1.bufferSize) := by
  induction fuel generalizing u left calls accepted with
  | zero => exact absurd hfuel (Nat.not_lt_zero _)
  | succ fuel ih =>
    have hfits := h.accounted.staged.fits
    have hpositive := h.accounted.staged.bufferSize_le.1
    unfold Updater.writeLoop
    split
    · rename_i hmore
      have htake : (left.take (u.bufferSize - u.bufferLen)).length = u.bufferSize - u.bufferLen := by
        rw [List.length_take]
        omega
      have hfilled := h.fill (left.take (u.bufferSize - u.bufferLen)) (by omega) (by omega)
      have hfull : (u.fill (left.take (u.bufferSize - u.bufferLen))).bufferLen =
          (u.fill (left.take (u.bufferSize - u.bufferLen))).bufferSize := by
        show u.bufferLen + _ = u.bufferSize
        omega
      simp only
      split
      · rename_i hfail
        exact ⟨fun _ => writeBuffer_failed _ hfail, fun hok => absurd hok (by simp)⟩
      · rename_i hok
        obtain ⟨hempty, calls', hidle⟩ := hfilled.flush (Or.inl hfull) (eq_true_of_ne_false hok)
        have hsize := hidle.same.bufferSize.trans hfilled.same.bufferSize.symm
        have hcount : left.length - (left.take (u.bufferSize - u.bufferLen)).length =
            (left.drop (u.bufferSize - u.bufferLen)).length := by
          rw [List.length_drop, htake]
        rw [hcount] at hidle
        have hloop := ih (left.drop (u.bufferSize - u.bufferLen)) hidle (by
          have hbuffer : (u.fill (left.take (u.bufferSize - u.bufferLen))).bufferSize =
            u.bufferSize := rfl
          rw [hempty, hsize, hbuffer, List.length_drop]
          split at hfuel
          · rw [if_neg (by omega)]
            omega
          · rw [if_neg (by omega)]
            omega)
        refine ⟨hloop.1, ?_⟩
        intro hdone
        obtain ⟨taken, calls'', hleft, hrest⟩ := hloop.2 hdone
        refine ⟨left.take (u.bufferSize - u.bufferLen) ++ taken, calls'', ?_, ?_⟩
        · rw [List.append_assoc, ← hleft, List.take_append_drop]
        · rw [← List.append_assoc]
          exact hrest
    · rename_i hless
      refine ⟨fun hno => absurd hno (by simp), fun _ => ⟨[], calls, rfl, ?_, Nat.le_of_not_lt hless⟩⟩
      rw [List.append_nil]
      exact h

theorem Idle.going {u₀ : Updater} {count : Nat}
    (h : Idle u₀.sdk tame u₀ u calls accepted count) : Going tame u₀ u accepted := by
  intro _
  have hstreaming := h.streaming
  exact ⟨h.same, ⟨calls, h.accounted⟩, by simp [hstreaming]⟩

theorem Idle.finish {u₀ : Updater} {count : Nat} (h : Idle u₀.sdk tame u₀ u calls accepted count)
    (hlast : u.bufferLen = u.remaining) (accepted' : List UInt8)
    (hsame : u.writeBuffer.1 = true → accepted' = accepted) :
    Going tame u₀ u.writeBuffer.2 accepted' := by
  cases hok : u.writeBuffer.1 with
  | false => exact going_of_error accepted' (writeBuffer_failed u hok)
  | true =>
    have hroom := h.room
    rw [remaining_eq (by omega) h.accounted.small] at hlast
    obtain ⟨-, calls', hidle⟩ := h.flush (Or.inr (by omega)) hok
    rw [hsame hok]
    exact hidle.going

theorem error_of_not_hasError (h : ¬ (u.hasError = true ∨ ¬ u.isRunning = true)) :
    u.error = .ok := by
  cases herror : decide (u.error = .ok) with
  | true => exact of_decide_eq_true herror
  | false => exact absurd (Or.inl (by simpa [Updater.hasError] using herror)) h

theorem write_going {u₀ : Updater} (h : Going tame u₀ u accepted) (hstreaming : u.streaming = false)
    (data : List UInt8) (hdata : data.length < 2 ^ 31) :
    Going tame u₀ (u.write data).1 (accepted ++ (u.write data).2) := by
  unfold Updater.write
  split
  · simpa using h
  · rename_i hready
    have hok := error_of_not_hasError hready
    split
    · exact going_of_error _ rfl
    · rename_i hspace
      obtain ⟨hsame, ⟨calls, haccounted⟩, -⟩ := h hok
      have hprogress := haccounted.staged.progress_le
      have hfits := haccounted.staged.fits
      have hsector : u.bufferSize ≤ 4096 := haccounted.staged.bufferSize_le.2
      have hroom : u.progress + u.bufferLen + data.length ≤ u.size := by omega
      have hidle : Idle u₀.sdk tame u₀ u calls accepted data.length :=
        ⟨haccounted, hsame, hstreaming, hroom⟩
      obtain ⟨hfail, hloop⟩ := writeLoop_idle (data.length + 2) data hidle (by split <;> omega)
      simp only
      split
      · rename_i hno
        exact going_of_error _ (hfail hno)
      · rename_i hyes
        obtain ⟨taken, calls', hleft, hrest, hbuffer⟩ := hloop (eq_true_of_ne_false hyes)
        generalize Updater.writeLoop (data.length + 2) u data = r at *
        have hfilled := hrest.fill r.2.2 hbuffer (Nat.le_refl _)
        rw [List.append_assoc, ← hleft] at hfilled
        split
        · rename_i hlast
          refine hfilled.finish hlast _ ?_
          intro hwritten
          rw [if_pos hwritten]
        · exact hfilled.going

theorem writeAvailable_going {u₀ : Updater} (h : Going tame u₀ u accepted)
    (hstreaming : u.streaming = false) (pending : List UInt8) :
    Going tame u₀ (u.writeAvailable pending).1 (accepted ++ (u.writeAvailable pending).2) := by
  unfold Updater.writeAvailable
  split
  · simpa using h
  · rename_i hready
    have hok : u.error = .ok := error_of_not_hasError (fun hno => hready (by
      cases hno with
      | inl herror => exact Or.inl herror
      | inr hstopped => exact Or.inr (Or.inl hstopped)))
    obtain ⟨hsame, ⟨calls, haccounted⟩, -⟩ := h hok
    have hwithin := haccounted.within (Or.inl hstreaming)
    have hremaining := remaining_eq (show u.progress ≤ u.size by omega) haccounted.small
    have hfits := haccounted.staged.fits
    have hsector : u.bufferSize ≤ 4096 := haccounted.staged.bufferSize_le.2
    have hsmall := haccounted.small
    simp only
    generalize havailable : (if u.bufferLen + pending.length > u.remaining then
      (u.remaining + 2 ^ 32 - u.bufferLen) % 2 ^ 32 else pending.length) = available
    have hcount : available ≤ pending.length ∧ u.progress + u.bufferLen + available ≤ u.size := by
      split at havailable <;> omega
    have hidle : Idle u₀.sdk tame u₀ u calls accepted available :=
      ⟨haccounted, hsame, hstreaming, hcount.2⟩
    split
    · have htake : (pending.take (u.bufferSize - u.bufferLen)).length =
          u.bufferSize - u.bufferLen := by
        rw [List.length_take]
        omega
      have hfilled := hidle.fill (pending.take (u.bufferSize - u.bufferLen)) (by omega) (by omega)
      simp only
      cases hwritten : (u.fill (pending.take (u.bufferSize - u.bufferLen))).writeBuffer.1 with
      | false => exact going_of_error _ (writeBuffer_failed _ hwritten)
      | true =>
        have hfull : (u.fill (pending.take (u.bufferSize - u.bufferLen))).bufferLen =
            (u.fill (pending.take (u.bufferSize - u.bufferLen))).bufferSize := by
          show u.bufferLen + _ = u.bufferSize
          omega
        obtain ⟨-, calls', hflushed⟩ := hfilled.flush (Or.inl hfull) hwritten
        exact hflushed.going
    · have htake : (pending.take available).length = available := by
        rw [List.length_take]
        omega
      have hfilled := hidle.fill (pending.take available) (by omega) (by omega)
      split
      · rename_i hlast
        exact hfilled.finish hlast _ (fun _ => rfl)
      · exact hfilled.going

theorem remaining_eq_zero (hprogress : u.progress ≤ 2 ^ 24) (hsmall : u.size < 2 ^ 32) :
    u.remaining = 0 ↔ u.progress = u.size := by
  unfold Updater.remaining
  omega

theorem testStream_sets (u : Updater) :
    ∃ streaming, u.testStream = { u with streaming } ∧ (streaming = true ↔ u.remaining ≠ 0) :=
  ⟨decide (u.remaining ≠ 0), by unfold Updater.testStream; rfl, by simp only [decide_eq_true_eq]⟩

theorem streaming_same (u : Updater) (streaming : Bool) : SameUpdate u { u with streaming } :=
  ⟨rfl, rfl, rfl, rfl, rfl, rfl, rfl, rfl⟩

theorem streaming_accounted (h : Accounted s₀ tame u calls accepted) (streaming : Bool)
    (hwithin : streaming = false ∨ tame → u.progress + u.bufferLen ≤ u.size) :
    Accounted s₀ tame { u with streaming } calls accepted := by
  have hstaged : Staged s₀ { u with streaming } calls accepted := { h.staged with }
  exact { h with staged := hstaged, within := hwithin }

theorem testStream_going {u₀ : Updater} (hsame : SameUpdate u₀ u)
    (h : Accounted u₀.sdk tame u calls accepted) (hdone : u.progress = u.size → u.bufferLen = 0)
    (htame : tame → u.progress + u.bufferLen ≤ u.size) :
    Going tame u₀ u.testStream accepted := by
  have hzero := remaining_eq_zero h.staged.progress_le h.small
  obtain ⟨streaming, hsets, hstreaming⟩ := testStream_sets u
  rw [hsets]
  intro _
  refine ⟨hsame.trans (streaming_same u streaming), ⟨calls, streaming_accounted h streaming ?_⟩, ?_⟩
  · intro hend
    cases hend with
    | inr hend => exact htame hend
    | inl hend =>
      have hprogress : u.progress = u.size := by
        rw [← hzero]
        cases hremaining : decide (u.remaining = 0) with
        | true => exact of_decide_eq_true hremaining
        | false =>
          rw [hstreaming.mpr (of_decide_eq_false hremaining)] at hend
          exact absurd hend (by simp)
      rw [hdone hprogress]
      exact Nat.le_of_eq hprogress
  · intro hmore hprogress
    exact hstreaming.mp hmore (hzero.mpr hprogress)

theorem verifyHeader_passed (u : Updater) (peek : UInt8) (hok : (u.verifyHeader peek).1 = true) :
    (u.verifyHeader peek).2 = u := by
  unfold Updater.verifyHeader at hok ⊢
  split
  · rename_i hflash
    rw [if_pos hflash] at hok
    rw [(of_passed hok).2.2]
  · split <;> rfl

theorem verifyHeader_refused (u : Updater) (peek : UInt8)
    (hcommand : u.command = uFlash ∨ u.command = uFs) (hno : (u.verifyHeader peek).1 = false) :
    (u.verifyHeader peek).2.hasError = true := by
  unfold Updater.verifyHeader at hno ⊢
  cases hcommand with
  | inl hflash =>
    rw [if_pos hflash] at hno ⊢
    split
    · rfl
    · rename_i hmagic
      rw [if_neg hmagic] at hno
      exact absurd hno (by simp)
  | inr hfs =>
    have hother : u.command ≠ uFlash := by
      rw [hfs]
      decide
    rw [if_neg hother, if_pos hfs] at hno
    exact absurd hno (by simp)

theorem openStream_going {u₀ : Updater} (h : Going tame u₀ u accepted)
    (hstreaming : u.streaming = false) (peek : UInt8) :
    Going tame u₀ (u.openStream peek) accepted := by
  unfold Updater.openStream
  split
  · exact h
  · rename_i hready
    obtain ⟨hsame, ⟨calls, haccounted⟩, -⟩ := h (error_of_not_hasError hready)
    have hwithin := haccounted.within (Or.inl hstreaming)
    simp only
    split
    · rename_i hno
      exact going_of_error _ (verifyHeader_refused u peek haccounted.command hno)
    · rename_i hpassed
      rw [verifyHeader_passed u peek (eq_true_of_ne_false hpassed)]
      exact testStream_going hsame haccounted (fun hdone => by omega) (fun _ => hwithin)

theorem testStream_hasError (u : Updater) : u.testStream.hasError = u.hasError := by
  obtain ⟨streaming, hsets, -⟩ := testStream_sets u
  rw [hsets]
  rfl

theorem streamRead_hasError (h : u.hasError = true) (bytes : List UInt8) (expired : Bool) :
    (u.streamRead bytes expired).1.hasError = true := by
  unfold Updater.streamRead
  simp only
  split
  · rfl
  · have hfill : (u.fill (bytes.take u.bytesToRead)).hasError = true := h
    generalize u.fill (bytes.take u.bytesToRead) = v at *
    split
    · split
      · rename_i hno
        exact writeBuffer_failed v hno
      · rename_i hok
        have herror := (writeBuffer_flushed v (eq_true_of_ne_false hok)).1.same.error
        rw [testStream_hasError]
        unfold Updater.hasError at *
        rw [herror]
        exact hfill
    · rw [testStream_hasError]
      exact hfill

theorem streamRead_going {u₀ : Updater} (h : Going tame u₀ u accepted)
    (hstreaming : u.streaming = true) (bytes : List UInt8) (expired : Bool)
    (htame : tame → u.bufferLen + (bytes.take u.bytesToRead).length ≤ u.remaining) :
    Going tame u₀ (u.streamRead bytes expired).1 (accepted ++ (u.streamRead bytes expired).2) := by
  cases hok : decide (u.error = .ok) with
  | false =>
    exact going_of_error _ (streamRead_hasError
      (by simpa [Updater.hasError] using of_decide_eq_false hok) bytes expired)
  | true =>
    have htake : (bytes.take u.bytesToRead).length ≤ u.bufferSize - u.bufferLen := by
      rw [List.length_take]
      unfold Updater.bytesToRead
      omega
    obtain ⟨hsame, ⟨calls, haccounted⟩, hbusy⟩ := h (of_decide_eq_true hok)
    have hmore := hbusy hstreaming
    have hprogress := haccounted.staged.progress_le
    have hfits := haccounted.staged.fits
    have hsector : u.bufferSize ≤ 4096 := haccounted.staged.bufferSize_le.2
    have hsmall := haccounted.small
    unfold Updater.streamRead
    simp only
    generalize bytes.take u.bytesToRead = toRead at *
    split
    · exact going_of_error _ rfl
    · have hroom : tame → u.progress + u.bufferLen + toRead.length ≤ u.size := by
        intro ht
        have hremains := htame ht
        have hwithin := haccounted.within (Or.inr ht)
        rw [remaining_eq (by omega) hsmall] at hremains
        omega
      have hfilled := fill_accounted haccounted toRead (by omega)
        (fun hidle => hroom (hidle.resolve_left (by simp [hstreaming]))) hbusy
      have hsame' : SameUpdate u₀ (u.fill toRead) :=
        hsame.trans ⟨rfl, rfl, rfl, rfl, rfl, rfl, rfl, rfl⟩
      have hmore' : (u.fill toRead).progress ≠ (u.fill toRead).size := hmore
      have hsector' : (u.fill toRead).bufferSize ≤ 4096 := hsector
      generalize u.fill toRead = v at *
      split
      · rename_i hfull
        split
        · rename_i hno
          exact going_of_error _ (writeBuffer_failed v hno)
        · rename_i hwritten
          have hpage : v.bufferLen = v.bufferSize ∨ v.progress + v.bufferLen = v.size := by
            have hprogress' := hfilled.staged.progress_le
            have hfits' := hfilled.staged.fits
            have hsmall' := hfilled.small
            unfold Updater.remaining at hfull
            omega
          obtain ⟨hflushed, calls', haccounted'⟩ :=
            flush_accounted hfilled hpage (eq_true_of_ne_false hwritten)
          refine testStream_going (hsame'.trans hflushed.same) haccounted'
            (fun _ => hflushed.empty) ?_
          intro ht
          exact haccounted'.within (Or.inr ht)
      · exact testStream_going hsame' hfilled (fun hdone => absurd hdone hmore')
          (fun ht => hfilled.within (Or.inr ht))

theorem setMd5_going {u₀ : Updater} (h : Going tame u₀ u accepted) (expected : List UInt8) :
    Going tame u₀ (u.setMd5 expected) accepted := by
  unfold Updater.setMd5
  split
  · exact h
  · intro hok
    obtain ⟨hsame, ⟨calls, haccounted⟩, hbusy⟩ := h hok
    have hstaged : Staged u₀.sdk { u with targetMd5 := expected } calls accepted :=
      { haccounted.staged with }
    exact ⟨hsame.trans ⟨rfl, rfl, rfl, rfl, rfl, rfl, rfl, rfl⟩,
      ⟨calls, { haccounted with staged := hstaged }⟩, hbusy⟩

end Steps

abbrev Data : Type := { bytes : List UInt8 // bytes.length < 2 ^ 31 }

/-- The calls of a user between `begin` and `end`, and the rounds of the loop of
`writeStream`, during which there are no others. -/
inductive Action where
  | write (data : Data)
  | writeAvailable (pending : Data)
  | openStream (peek : UInt8)
  | streamRead (bytes : List UInt8) (expired : Bool)
  | setMd5 (expected : List UInt8)

def updates : Machine Updater Action (List UInt8) where
  step u a :=
    match a with
    | .streamRead bytes expired => if u.streaming then u.streamRead bytes expired else (u, [])
    | .write data => if u.streaming then (u, []) else u.write data.1
    | .writeAvailable pending => if u.streaming then (u, []) else u.writeAvailable pending.1
    | .openStream peek => if u.streaming then (u, []) else (u.openStream peek, [])
    | .setMd5 expected => if u.streaming then (u, []) else (u.setMd5 expected, [])

def Tame (u : Updater) : Action → Prop
  | .streamRead bytes _ => u.bufferLen + (bytes.take u.bytesToRead).length ≤ u.remaining
  | _ => True

instance (u : Updater) : (a : Action) → Decidable (Tame u a)
  | .streamRead _ _ => inferInstanceAs (Decidable (_ ≤ _))
  | .write _ => inferInstanceAs (Decidable True)
  | .writeAvailable _ => inferInstanceAs (Decidable True)
  | .openStream _ => inferInstanceAs (Decidable True)
  | .setMd5 _ => inferInstanceAs (Decidable True)

theorem updates_going {tame : Prop} {u₀ : Updater} (u : Updater) (a : Action)
    (accepted : List UInt8) (h : Going tame u₀ u accepted) (htame : tame → Tame u a) :
    Going tame u₀ (updates.step u a).1 (accepted ++ (updates.step u a).2) := by
  unfold updates
  cases a with
  | streamRead bytes expired =>
    simp only
    split
    · rename_i hstreaming
      exact streamRead_going h hstreaming bytes expired htame
    · simpa using h
  | write data =>
    simp only
    split
    · simpa using h
    · rename_i hidle
      exact write_going h (eq_false_of_ne_true hidle) data.1 data.2
  | writeAvailable pending =>
    simp only
    split
    · simpa using h
    · rename_i hidle
      exact writeAvailable_going h (eq_false_of_ne_true hidle) pending.1
  | openStream peek =>
    simp only
    split
    · simpa using h
    · rename_i hidle
      simpa using openStream_going h (eq_false_of_ne_true hidle) peek
  | setMd5 expected =>
    simp only
    split
    · simpa using h
    · simpa using setMd5_going h expected

theorem roundUp_aligned (size : Nat) : roundUp size % flashSectorSize = 0 := by
  unfold roundUp
  exact Nat.mul_mod_left _ _

theorem updateStartAddress_aligned (b : Board) (env : Env) (size : UInt32) (command start : Nat)
    (h : b.updateStartAddress env size command = .ok start) :
    start % flashSectorSize = 0 ∧ (command = uFlash ∨ command = uFs) := by
  have hfs : b.fsOffset % flashSectorSize = 0 := Nat.mul_mod_left _ _
  have hrounded := roundUp_aligned size.toNat
  have hfirst : (if b.fsOffset > roundUp size.toNat then b.fsOffset - roundUp size.toNat else 0) %
      flashSectorSize = 0 := by
    split
    · unfold flashSectorSize at *
      omega
    · rfl
  unfold Board.updateStartAddress at h
  simp only at h
  generalize (if b.fsOffset > roundUp size.toNat then b.fsOffset - roundUp size.toNat else 0) =
    first at *
  have hstaged : (if first < roundUp env.sketchSize.toNat then Except.error UpdateError.space
      else .ok first) = .ok start → start % flashSectorSize = 0 := by
    intro hstart
    split at hstart
    · exact absurd hstart (by simp)
    · rw [← Except.ok.inj hstart]
      exact hfirst
  split at h
  · rename_i hflash
    exact ⟨hstaged h, Or.inl hflash⟩
  · split at h
    · rename_i hcommand
      split at h
      · exact absurd h (by simp)
      · split at h
        · exact ⟨hstaged h, Or.inr hcommand⟩
        · rw [← Except.ok.inj h]
          exact ⟨hfs, Or.inr hcommand⟩
    · exact absurd h (by simp)

theorem begin_going (tame : Prop) (b : Board) (env : Env) (u : Updater) (size : UInt32)
    (command : Nat) (hidle : u.streaming = false) (hok : (u.begin b env size command).1 = true) :
    (u.begin b env size command).2.size = size.toNat ∧
      Going tame (u.begin b env size command).2 (u.begin b env size command).2 [] := by
  unfold Updater.begin at hok ⊢
  obtain ⟨-, hok, hpassed⟩ := of_passed hok
  rw [hpassed]
  obtain ⟨-, hok, hpassed⟩ := of_passed hok
  rw [hpassed]
  obtain ⟨hsize, hok, hpassed⟩ := of_passed hok
  rw [hpassed]
  obtain ⟨-, hok, hpassed⟩ := of_passed hok
  rw [hpassed]
  simp only at hok ⊢
  split at hok
  · exact absurd hok (by simp)
  · rename_i start hstart
    obtain ⟨haligned, hcommand⟩ := updateStartAddress_aligned b env size command start hstart
    obtain ⟨hbuffer, -, hpassed⟩ := of_passed hok
    rw [hpassed]
    have hsmall : size.toNat < 2 ^ 32 := size.toNat_lt
    refine ⟨rfl, ?_⟩
    intro _
    have hfed : ∀ v : Updater, v.md5 = [] → Fed v.sdk v [] := fun v hnone _ =>
      ⟨headerMode _ _, .inl rfl, hnone.trans List.take_nil.symm⟩
    refine ⟨sameUpdate_refl _, ⟨[], ?_, hfed _ rfl, rfl, Nat.pos_of_ne_zero hsize, hsmall, hcommand,
      ?_, ?_⟩, ?_⟩
    · refine staged_begin _ hbuffer ?_ haligned rfl rfl
      simp only
      split
      · exact Or.inr rfl
      · exact Or.inl rfl
    · exact Or.inl (by simp [Updater.progress])
    · intro _
      simp [Updater.progress, Updater.reset]
    · intro hstreaming
      exact absurd (hidle.symm.trans hstreaming) (by simp)

theorem updates_run {tame : Prop} (b : Board) (env : Env) (u : Updater) (size : UInt32)
    (command : Nat) (hidle : u.streaming = false) (hok : (u.begin b env size command).1 = true)
    (actions : List Action)
    (htame : tame → updates.Along Tame (u.begin b env size command).2 actions) :
    Going tame (u.begin b env size command).2
      (updates.run (u.begin b env size command).2 actions).1
      (updates.run (u.begin b env size command).2 actions).2.flatten := by
  have hbegin := (begin_going tame b env u size command hidle hok).2
  have halong : updates.Along (fun u a => tame → Tame u a) (u.begin b env size command).2
      actions := by
    by_cases ht : tame
    · simpa [ht] using htame ht
    · exact Machine.along_of_forall _ _ (fun _ _ h => absurd h ht) _ _
  exact updates.run_account (fun u a => tame → Tame u a) (Going tame _)
    (fun s a accepted h hguard => updates_going s a accepted h hguard) _ actions [] hbegin halong

/-- In every run of updates whose streams yield no more than remains behind the buffer, as
long as there is no error, the buffer holds what fits into it and into the rest of the image,
whole pages have been written until all of it is, and nothing is programmed behind it. -/
theorem updater_accounts (b : Board) (env : Env) (u : Updater) (size : UInt32) (command : Nat)
    (hidle : u.streaming = false) (hok : (u.begin b env size command).1 = true)
    (actions : List Action) (htame : updates.Along Tame (u.begin b env size command).2 actions) :
    let u₀ := (u.begin b env size command).2
    let r := updates.run u₀ actions
    r.1.error = .ok →
      r.1.size = size.toNat ∧ r.1.startAddress ≤ r.1.currentAddress ∧
        r.1.bufferLen ≤ r.1.bufferSize ∧ r.1.progress + r.1.bufferLen ≤ r.1.size ∧
        (r.1.progress ≠ r.1.size → r.1.progress % r.1.bufferSize = 0) ∧
        r.2.flatten.length ≤ r.1.size ∧ r.1.remaining = r.1.size - r.1.progress ∧
        ∀ a, r.1.startAddress + r.1.size ≤ a →
          r.1.sdk.flash a = u₀.sdk.flash a ∨ r.1.sdk.flash a = 0xFF := by
  intro u₀ r hnoError
  have hrun : Going True u₀ r.1 r.2.flatten :=
    updates_run b env u size command hidle hok actions (fun _ => htame)
  obtain ⟨hsame, ⟨calls, haccounted⟩, -⟩ := hrun hnoError
  have hwithin := haccounted.within (Or.inr trivial)
  have hlength := haccounted.staged.length
  have hreached := haccounted.staged.reached
  refine ⟨?_, hreached, haccounted.staged.fits, hwithin, ?_, ?_,
    remaining_eq (by omega) haccounted.small, ?_⟩
  · rw [hsame.size]
    exact (begin_going True b env u size command hidle hok).1
  · intro hmore
    exact haccounted.whole.resolve_right hmore
  · omega
  · intro a ha
    by_cases hend : a < sectorEnd r.1.currentAddress
    · refine Or.inr (haccounted.staged.erased a ?_ hend)
      unfold Updater.progress at hwithin
      omega
    · exact Or.inl (haccounted.staged.beyond a (Nat.le_of_not_lt hend))

def sampleBoard : Board := ⟨768, 0x403FB000, false, false, 2 ^ 22, fun _ => []⟩

def sampleEnv : Env := ⟨0, true, 4096, 4096, 16⟩

theorem sample_chipSize : 2 ^ 22 ≤ 2 ^ 24 := by decide

def sampleSdk : Sdk := ⟨fun _ => 0xE9, [], [], false, false, [], 2 ^ 22, sample_chipSize⟩

def stopped : Updater :=
  ⟨.ok, fun _ => 0, 0, 0, 0, 0, 0, 0, uFlash, [], [], none, sampleSdk, [], false⟩

theorem updater_accounts_stream :
    let u₀ := (stopped.begin sampleBoard sampleEnv 100 uFlash).2
    let r := updates.run u₀ [.openStream 0xE9, .streamRead (List.replicate 60 0xE9) false]
    r.1.error = .ok ∧ r.1.bufferLen = 60 ∧ r.1.progress + r.1.bufferLen ≤ r.1.size := by
  have haccounts := updater_accounts sampleBoard sampleEnv stopped 100 uFlash rfl (by decide)
    [.openStream 0xE9, .streamRead (List.replicate 60 0xE9) false]
    ⟨trivial, by decide, trivial⟩ (by decide)
  exact ⟨by decide, by decide, haccounts.2.2.2.1⟩

theorem stream_reads_past_end :
    let u₀ := (stopped.begin sampleBoard sampleEnv 100 uFlash).2
    let r := updates.run u₀ [.openStream 0xE9, .streamRead (List.replicate 60 0xE9) false,
      .streamRead (List.replicate 100 0) false]
    (stopped.begin sampleBoard sampleEnv 100 uFlash).1 = true ∧ r.1.error = .ok ∧
      ¬ r.1.progress + r.1.bufferLen ≤ r.1.size ∧ ¬ r.2.flatten.length ≤ r.1.size := by
  decide +kernel

end Esp8266.Update
