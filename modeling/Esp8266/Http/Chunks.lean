import Esp8266.Http.WriteToStream

/-! The way of `writeToStream` from chunk to chunk, and when it counts a body as complete. -/
namespace Esp8266.Http
open Esp8266.Ctype Esp8266.Streams

theorem int_eq (n : Int) :
    int n = if n % 2 ^ 32 < 2 ^ 31 then n % 2 ^ 32 else n % 2 ^ 32 - 2 ^ 32 := rfl

theorem int_le (n : Int) : -(2 ^ 31) ≤ int n ∧ int n < 2 ^ 31 := by
  rw [int_eq]
  split <;> omega

theorem int_of_range {n : Int} (hlow : -(2 ^ 31) ≤ n) (hhigh : n < 2 ^ 31) : int n = n := by
  rw [int_eq]
  split <;> omega

theorem int_add (a b : Int) : int (int a + b) = int (a + b) := Int.bmod_add_bmod

theorem int_add_eq {b : Int} (hlow : -(2 ^ 31) ≤ b) (hhigh : b < 2 ^ 31) (a : Int) :
    int a = int (a + b) ↔ b = 0 := by
  rw [int_eq, int_eq]
  split <;> split <;> omega

section Walk
variable (c : Connection)

structure TakesChunk (arrivals next : Arrivals) : Prop where
  connected : c.connected arrivals = true
  line : (header arrivals).length ≠ 0
  announces : 0 < announced arrivals
  sent : chunkReport c arrivals = .success
  trailing : chunkTrailing c arrivals = ([13, 10], next)

inductive Chunks : Arrivals → List Arrivals → Arrivals → Prop where
  | none (stop : Arrivals) : Chunks stop [] stop
  | cons {arrivals next stop : Arrivals} {headers : List Arrivals}
      (chunk : TakesChunk c arrivals next) (others : Chunks next headers stop) :
      Chunks arrivals (arrivals :: headers) stop

structure Stops (arrivals : Arrivals) : Prop where
  connected : c.connected arrivals = true
  line : (header arrivals).length ≠ 0
  announces : announced arrivals ≤ 0

def chunksData (headers : List Arrivals) : List UInt8 := headers.flatMap (chunkData c)

/-- The loop compares the number of bytes with `_size`, or without one with the sum of what the
headers announced. -/
def Accepts (size : Int) (headers : List Arrivals) (stop : Arrivals) : Prop :=
  0 ≤ int (chunksData c headers).length ∧
    if size ≤ 0 then announced stop = 0 else int (chunksData c headers).length = size

variable {c}

theorem announced_range (arrivals : Arrivals) :
    -(2 ^ 31) ≤ announced arrivals ∧ announced arrivals < 2 ^ 31 := int_le _

theorem TakesChunk.length {arrivals next : Arrivals} (h : TakesChunk c arrivals next) :
    ((chunkData c arrivals).length : Int) = announced arrivals :=
  c.whole _ _ h.announces h.sent

theorem TakesChunk.loop {arrivals next : Arrivals} (h : TakesChunk c arrivals next)
    (size ret : Int) (written : Written) :
    chunkLoop c arrivals size ret written =
      chunkLoop c next (int (size + announced arrivals)) (int (ret + announced arrivals))
        { written with output := written.output ++ chunkData c arrivals } := by
  rw [chunkLoop]
  simp only [h.connected, Bool.true_eq_false, if_false, dif_neg h.line, if_pos h.announces, h.sent,
    h.trailing, h.length, ne_eq, not_true]

theorem Stops.loop {stop : Arrivals} (h : Stops c stop) (size ret : Int) (written : Written) :
    chunkLoop c stop size ret written =
      let total := if written.size ≤ 0 then int (size + announced stop) else written.size
      if ret = total then { written with value := ret, size := total }
      else { written with value := errorStreamWrite, size := total } := by
  rw [chunkLoop]
  simp only [h.connected, Bool.true_eq_false, if_false, dif_neg h.line,
    if_neg (Int.not_lt.mpr h.announces), ne_eq, ite_not]

theorem Chunks.loop {arrivals stop : Arrivals} {headers : List Arrivals}
    (h : Chunks c arrivals headers stop) (size ret : Int) (written : Written) :
    chunkLoop c arrivals (int size) (int ret) written =
      chunkLoop c stop (int (size + (chunksData c headers).length))
        (int (ret + (chunksData c headers).length))
        { written with output := written.output ++ chunksData c headers } := by
  induction h generalizing size ret written with
  | none stop =>
    unfold chunksData
    simp only [List.flatMap_nil, List.length_nil, Int.natCast_zero, Int.add_zero, List.append_nil]
  | @cons arrivals next stop headers chunk others ih =>
    have hdata : chunksData c (arrivals :: headers) = chunkData c arrivals ++ chunksData c headers :=
      List.flatMap_cons
    rw [chunk.loop, int_add, int_add, ih, hdata]
    simp only [List.append_assoc, List.length_append, Int.natCast_add, chunk.length, Int.add_assoc]

theorem Chunks.data_length {arrivals stop : Arrivals} {headers : List Arrivals}
    (h : Chunks c arrivals headers stop) :
    ∀ start ∈ headers, ((chunkData c start).length : Int) = announced start := by
  induction h with
  | none stop => exact fun start hstart => absurd hstart List.not_mem_nil
  | cons chunk others ih =>
    intro start hstart
    cases List.mem_cons.mp hstart with
    | inl heq => exact heq ▸ chunk.length
    | inr hmem => exact ih start hmem

theorem streamReport_negative {report : Report} (h : report ≠ .success) :
    streamReportToHttpClientReport report < 0 := by
  cases report with
  | success => exact absurd rfl h
  | timedOut => decide
  | shortOperation => decide

theorem chunkLoop_reaches (arrivals : Arrivals) (size ret : Int) (written : Written)
    (h : 0 ≤ (chunkLoop c arrivals size ret written).value) :
    ∃ headers stop, Chunks c arrivals headers stop ∧ Stops c stop := by
  have hlost : ¬ (0 : Int) ≤ errorConnectionLost := by decide
  have htimeout : ¬ (0 : Int) ≤ errorReadTimeout := by decide
  rw [chunkLoop] at h
  split at h
  · exact absurd h hlost
  · rename_i hconnected
    rw [Bool.not_eq_false] at hconnected
    split at h
    · exact absurd h htimeout
    · rename_i hline
      simp only at h
      split at h
      · rename_i hannounces
        split at h
        · rename_i hreport
          have := streamReport_negative hreport
          exact absurd h (by simp only; omega)
        · rename_i hreport
          split at h
          · exact absurd h htimeout
          · rename_i htrailing
            have hless := chunkTrailing_length c arrivals hline
            obtain ⟨headers, stop, hchunks, hstops⟩ := chunkLoop_reaches _ _ _ _ h
            refine ⟨arrivals :: headers, stop, .cons ⟨hconnected, hline, hannounces, ?_, ?_⟩ hchunks,
              hstops⟩
            · exact Classical.not_not.mp hreport
            · exact Prod.ext (Classical.not_not.mp htrailing) rfl
      · rename_i hannounces
        exact ⟨[], arrivals, .none arrivals, hconnected, hline, Int.not_lt.mp hannounces⟩
termination_by arrivals.length

theorem Chunks.connected {arrivals stop : Arrivals} {headers : List Arrivals}
    (h : Chunks c arrivals headers stop) (hstop : Stops c stop) : c.connected arrivals = true := by
  cases h with
  | none => exact hstop.connected
  | cons chunk others => exact chunk.connected

theorem Chunks.unique {arrivals stop stop' : Arrivals} {headers headers' : List Arrivals}
    (h : Chunks c arrivals headers stop) (hstop : Stops c stop)
    (h' : Chunks c arrivals headers' stop') (hstop' : Stops c stop') :
    headers = headers' ∧ stop = stop' := by
  induction h generalizing headers' with
  | none stop =>
    cases h' with
    | none => exact ⟨rfl, rfl⟩
    | cons chunk others => exact absurd chunk.announces (Int.not_lt.mpr hstop.announces)
  | cons chunk others ih =>
    cases h' with
    | none => exact absurd chunk.announces (Int.not_lt.mpr hstop'.announces)
    | cons chunk' others' =>
      have hnext := congrArg Prod.snd (chunk.trailing.symm.trans chunk'.trailing)
      simp only at hnext
      subst hnext
      obtain ⟨hheaders, hstops⟩ := ih hstop others'
      exact ⟨congrArg _ hheaders, hstops⟩

theorem Chunks.writes {arrivals stop : Arrivals} {headers : List Arrivals}
    (h : Chunks c arrivals headers stop) (hstop : Stops c stop) (size : Int) :
    let total := int (chunksData c headers).length
    let expected := if size ≤ 0 then int ((chunksData c headers).length + announced stop) else size
    writeToStream c .chunked size arrivals =
      ⟨if total = expected then total else errorStreamWrite, chunksData c headers, expected⟩ := by
  have hloop : chunkLoop c arrivals 0 0 ⟨0, [], size⟩ = _ := h.loop 0 0 ⟨0, [], size⟩
  unfold writeToStream
  simp only [h.connected hstop, Bool.true_eq_false, false_and, if_false]
  rw [hloop, hstop.loop]
  simp only [Int.zero_add, List.nil_append, int_add]
  by_cases htotal : int (chunksData c headers).length =
      if size ≤ 0 then int ((chunksData c headers).length + announced stop) else size
  · rw [if_pos htotal, if_pos htotal]
  · rw [if_neg htotal, if_neg htotal]

theorem Chunks.nonnegative_iff {arrivals stop : Arrivals} {headers : List Arrivals}
    (h : Chunks c arrivals headers stop) (hstop : Stops c stop) (size : Int) :
    0 ≤ (writeToStream c .chunked size arrivals).value ↔ Accepts c size headers stop := by
  have hrange := announced_range stop
  have hzero := int_add_eq hrange.1 hrange.2 (chunksData c headers).length
  have herror : ¬ (0 : Int) ≤ errorStreamWrite := by decide
  rw [h.writes hstop]
  unfold Accepts
  simp only
  by_cases hsize : size ≤ 0
  · rw [if_pos hsize, if_pos hsize, ← hzero]
    split
    · rename_i heq
      exact ⟨fun hle => ⟨hle, heq⟩, And.left⟩
    · rename_i hne
      exact ⟨fun hle => absurd hle herror, fun hboth => absurd hboth.2 hne⟩
  · rw [if_neg hsize, if_neg hsize]
    split
    · rename_i heq
      exact ⟨fun hle => ⟨hle, heq⟩, And.left⟩
    · rename_i hne
      exact ⟨fun hle => absurd hle herror, fun hboth => absurd hboth.2 hne⟩

theorem writeToStream_reaches {arrivals : Arrivals} {size : Int}
    (h : 0 ≤ (writeToStream c .chunked size arrivals).value) :
    ∃ headers stop, Chunks c arrivals headers stop ∧ Stops c stop ∧ Accepts c size headers stop := by
  have hvalue := h
  have hnot : ¬ (0 : Int) ≤ errorNotConnected := by decide
  unfold writeToStream at h
  split at h
  · exact absurd h hnot
  · obtain ⟨headers, stop, hchunks, hstops⟩ := chunkLoop_reaches _ _ _ _ h
    exact ⟨headers, stop, hchunks, hstops, (hchunks.nonnegative_iff hstops size).mp hvalue⟩

end Walk

end Esp8266.Http
