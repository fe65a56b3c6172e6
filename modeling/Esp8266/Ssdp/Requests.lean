import Esp8266.Ssdp.Searches

/-! The start line: the method and the URI are cut to the sizes of their buffers before they are
compared. What is answered, over all datagrams. -/
namespace Esp8266.Ssdp
open Esp8266.CString Esp8266.Ctype

def Request.IsSearch (r : Request) : Prop := r.method = mSearch ∧ r.uri = [42]

def Request.TakenForSearch (r : Request) : Prop :=
  cut (r.method.take 9) = mSearch ∧ r.uri.head? = some 42

structure OthersIgnored (device : Device) (r : Request) : Prop where
  other : ¬ r.IsSearch → ∀ (clock : Clock) (client : Client) (rest : List UInt8),
    client.pending = false → (receive device clock client (r.datagram rest)).pending = false
  short : ∀ (clock : Clock) (client : Client), client.pending = false →
    (receive device clock client r.method).pending = false ∧
      (receive device clock client (r.method ++ 32 :: r.uri)).pending = false

namespace Parser
variable (device : Device) (clock : Clock) {p : Parser}

theorem endOfLine_cursor (h : p.cursor ≤ 63) : (p.endOfLine device clock).cursor ≤ 63 := by
  have htarget : (p.searchTarget device clock).cursor = p.cursor := by
    unfold searchTarget answer
    simp only
    split <;> split <;> split <;> rfl
  have hnext : ∀ q : Parser, q.cursor ≤ 63 →
      (if q.state ≠ .abort then { q with state := .key, header := .start, cursor := 0 }
        else q : Parser).cursor ≤ 63 := by
    intro q hq
    split
    · exact Nat.zero_le 63
    · exact hq
  unfold endOfLine
  apply hnext
  cases p.header with
  | st =>
    show (p.searchTarget device clock).cursor ≤ 63
    rw [htarget]
    exact h
  | start => exact h
  | man => exact h
  | mx => exact h

theorem react_cursor (p : Parser) (c : UInt8) (h : p.cursor ≤ 63) :
    (p.react device clock c).cursor ≤ 63 := by
  have hstore : ∀ (q : Parser) (limit : Nat), q.cursor ≤ 63 → limit ≤ 63 →
      (q.store c limit).cursor ≤ 63 := by
    intro q limit hq hlimit
    unfold store
    split
    · show q.cursor + 1 ≤ 63
      omega
    · exact hq
  unfold react
  cases p.state with
  | method =>
    simp only
    split
    · exact Nat.zero_le 63
    · exact hstore p 9 h (by decide)
  | uri =>
    simp only
    split
    · exact Nat.zero_le 63
    · exact hstore p 1 h (by decide)
  | proto =>
    simp only
    split
    · exact Nat.zero_le 63
    · exact h
  | key =>
    simp only
    split
    · exact h
    · split
      · exact Nat.zero_le 63
      · split
        · exact hstore p 63 h (Nat.le_refl 63)
        · exact h
  | value =>
    simp only
    split
    · exact endOfLine_cursor device clock h
    · split
      · exact hstore _ 63 h (Nat.le_refl 63)
      · exact h
  | abort => exact h

theorem run_cursor (bytes : List UInt8) (p : Parser) (h : p.cursor ≤ 63) :
    (p.run device clock bytes).cursor ≤ 63 := by
  induction bytes generalizing p with
  | nil => exact h
  | cons c bytes ih => exact ih _ (react_cursor device clock _ c h)

end Parser

theorem othersIgnored_iff (device : Device) (r : Request) :
    OthersIgnored device r ↔ (r.TakenForSearch → r.IsSearch) := by
  have hsplit : ∀ (clock : Clock) (client : Client) (rest : List UInt8),
      receive device clock client (r.datagram rest) =
        ((((Parser.initial client).run device clock (r.method ++ [32])).run device clock
          (r.uri ++ [32])).run device clock rest).client := by
    intro clock client rest
    unfold receive Request.datagram
    rw [← Parser.run_append, ← Parser.run_append]
    simp
  constructor
  · intro h htaken
    apply Classical.byContradiction
    intro hother
    -- two empty lines end the headers
    have hno := h.other hother ⟨0, fun _ => 0⟩ ⟨false, false, 0, 0⟩ [13, 10, 13, 10] rfl
    rw [hsplit] at hno
    obtain ⟨q, hq, -, hcursor, hheader, hstate⟩ :=
      Parser.run_method_space device ⟨0, fun _ => 0⟩ ⟨false, false, 0, 0⟩ r
    rw [if_pos htaken.1] at hstate
    obtain ⟨-, q', hq', -, hcursor', hcr', hheader', hstate'⟩ :=
      Parser.run_uri device ⟨0, fun _ => 0⟩ r hstate.1 hcursor hstate.2
    rw [if_pos htaken.2] at hstate'
    have hkey := Parser.run_headers device ⟨0, fun _ => 0⟩ hstate' (hheader'.trans hheader) hcr'
    have hyes := (Parser.run_end device ⟨0, fun _ => 0⟩ hkey).1
    rw [← Parser.run_append] at hyes
    rw [hq, hq'] at hno
    rw [show ([13, 10, 13, 10] : List UInt8) = [13, 10] ++ [13, 10] from rfl, hyes] at hno
    exact absurd hno (by simp)
  · intro h
    constructor
    · intro hother clock client rest hclient
      rw [hsplit]
      obtain ⟨q, hq, hq', hcursor, -, hstate⟩ := Parser.run_method_space device clock client r
      rw [hq]
      by_cases hmethod : cut (r.method.take 9) = mSearch
      · rw [if_pos hmethod] at hstate
        obtain ⟨-, q', hrun, hclient', -, -, -, hstate'⟩ :=
          Parser.run_uri device clock r hstate.1 hcursor hstate.2
        rw [if_neg (fun huri => hother (h ⟨hmethod, huri⟩))] at hstate'
        rw [hrun]
        apply (Parser.run_abort device clock q' rest hstate').2
        rw [hclient', hq']
        exact .inl hclient
      · rw [if_neg hmethod] at hstate
        rw [← Parser.run_append]
        apply (Parser.run_abort device clock q _ hstate).2
        rw [hq']
        exact .inl hclient
    · intro clock client hclient
      have hmethod : (receive device clock client r.method).pending = false := by
        unfold receive
        rw [(Parser.run_method device clock client r).1]
        exact hclient
      refine ⟨hmethod, ?_⟩
      unfold receive
      rw [show r.method ++ 32 :: r.uri = (r.method ++ [32]) ++ r.uri by simp, Parser.run_append]
      obtain ⟨q, hq, hq', hcursor, -, hstate⟩ := Parser.run_method_space device clock client r
      rw [hq]
      by_cases hsearch : cut (r.method.take 9) = mSearch
      · rw [if_pos hsearch] at hstate
        rw [(Parser.run_uri device clock r hstate.1 hcursor hstate.2).1, hq']
        exact hclient
      · rw [if_neg hsearch] at hstate
        apply (Parser.run_abort device clock q _ hstate).2
        rw [hq']
        exact .inl hclient

structure AnswersExactly (device : Device) (now : UInt32) (n : Notify) (s : Search) (r : Request) :
    Prop where
  searches : SearchAnswered device now n s
  others : OthersIgnored device r
  inside : ∀ (clock : Clock) (client : Client) (datagram : List UInt8),
    ((Parser.initial client).run device clock datagram).cursor < 64

theorem answersExactly_iff (device : Device) (now : UInt32) (n : Notify) (s : Search) (r : Request) :
    AnswersExactly device now n s r ↔
      (SearchClear device s ∧ (n.due now = true →
        ∀ l ∈ s.lines, l.name = stName → sameIgnoringCase l.value device.uuid = false)) ∧
      (r.TakenForSearch → r.IsSearch) := by
  constructor
  · intro h
    exact ⟨(searchAnswered_iff device now n s).mp h.searches,
      (othersIgnored_iff device r).mp h.others⟩
  · rintro ⟨hsearch, hrequest⟩
    refine ⟨(searchAnswered_iff device now n s).mpr hsearch, (othersIgnored_iff device r).mpr hrequest, ?_⟩
    intro clock client datagram
    have h := Parser.run_cursor device clock datagram (.initial client) (Nat.zero_le 63)
    omega

def sampleDevice : Device := ⟨⟨[100], by decide⟩, ⟨[117], by decide⟩⟩

def bareSearch : Search := ⟨[], by decide⟩

theorem longUri_space : ∀ c ∈ ([42, 120] : List UInt8), c ≠ 32 := by
  simp

def longUri : Request := ⟨mSearch, [42, 120], mSearch_space, longUri_space⟩

theorem bare_search_answered : ¬ AnswersExactly sampleDevice 1 ⟨1, 1200⟩ bareSearch longUri ∧
    (receive sampleDevice ⟨0, fun _ => 0⟩ ⟨false, false, 0, 0⟩
      (longUri.datagram [13, 10, 13, 10])).pending = true := by
  constructor
  · intro h
    obtain ⟨hanswer, -⟩ := h.searches ⟨0, fun _ => 0⟩ ⟨false, false, 0, 0⟩ rfl
    obtain ⟨l, hl, -⟩ := hanswer.mp (Or.inr (by decide))
    exact absurd hl List.not_mem_nil
  · decide

end Esp8266.Ssdp
