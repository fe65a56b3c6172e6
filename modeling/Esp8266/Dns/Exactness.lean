import Esp8266.Dns.Matching

/-! When the response of `respondToRequest` is exact. -/
namespace Esp8266.Dns
open Esp8266.Ctype

section Www
variable {buffer : List UInt8}

theorem noWww (h : byte buffer 12 ≠ 3) (hstart : 12 < buffer.length) :
    leadingWww buffer = false ∧ ∀ i ∈ wwwReads buffer, i < buffer.length := by
  refine ⟨?_, ?_⟩
  · unfold leadingWww
    rw [decide_eq_false h, Bool.false_and]
  · unfold wwwReads
    rw [if_neg h]
    intro i hi
    rw [List.mem_singleton.mp hi]
    exact hstart

theorem threeLetters {a b c : UInt8} {rest : List UInt8} (hbyte : byte buffer 12 = 3)
    (hlabel : buffer.drop 13 = a :: b :: c :: rest) :
    (leadingWww buffer = true ↔ [a, b, c].map tolower = wwwLabel) ∧
      ∀ i ∈ wwwReads buffer, i < buffer.length := by
  obtain ⟨ha, -⟩ := byte_of_drop hlabel
  have hsecond : buffer.drop 14 = b :: c :: rest := drop_of_drop [a] hlabel
  have hthird : buffer.drop 15 = c :: rest := drop_of_drop [a, b] hlabel
  obtain ⟨hb, -⟩ := byte_of_drop hsecond
  obtain ⟨hc, hlast⟩ := byte_of_drop hthird
  refine ⟨?_, ?_⟩
  · unfold leadingWww
    rw [decide_eq_true hbyte, Bool.true_and, ha, hb, hc]
    exact decide_eq_true_iff
  · unfold wwwReads
    rw [if_pos hbyte]
    intro i hi
    simp only [List.mem_cons, List.not_mem_nil, or_false] at hi
    omega

end Www

section Question

theorem three_of_length {label : List UInt8} (h : label.length = 3) : ∃ a b c, label = [a, b, c] := by
  match label, h with
  | [a, b, c], _ => exact ⟨a, b, c, rfl⟩

variable {buffer : List UInt8} {labels : List (List UInt8)}

theorem Question.compared (h : Question buffer labels) : ∃ asked rest,
    (∀ label ∈ asked, 0 < label.length ∧ label.length < 256) ∧
    buffer.drop (if leadingWww buffer = true then dnsHeaderSize + 4 else dnsHeaderSize) =
      encodeLabels asked ++ 0 :: rest ∧
    asked.map (List.map tolower) = askedLabels labels ∧ ∀ i ∈ wwwReads buffer, i < buffer.length := by
  obtain ⟨rest, hlayout, -⟩ := h.layout
  have hlengths := h.lengths
  have hthree : (3 : UInt8).toNat = 3 := rfl
  cases labels with
  | nil =>
    have hfirst : buffer.drop 12 = 0 :: rest := hlayout
    obtain ⟨hbyte, hstart⟩ := byte_of_drop hfirst
    obtain ⟨hno, hreads⟩ := noWww (by rw [hbyte]; decide) hstart
    refine ⟨[], rest, hlengths, ?_, rfl, hreads⟩
    rw [hno]
    exact hlayout
  | cons label labels =>
    obtain ⟨-, hlt⟩ := hlengths label List.mem_cons_self
    have hlabel := hlayout
    rw [encodeLabels_cons, List.cons_append, List.append_assoc] at hlabel
    obtain ⟨hbyte, hstart⟩ := byte_of_drop hlabel
    have hbehind := drop_of_drop [UInt8.ofNat label.length] hlabel
    by_cases hlong : label.length = 3
    · obtain ⟨a, b, c, rfl⟩ := three_of_length hlong
      obtain ⟨hwww, hreads⟩ := threeLetters hbyte hbehind
      by_cases hleading : leadingWww buffer = true
      · refine ⟨labels, rest, fun other hother => hlengths other (List.mem_cons_of_mem _ hother), ?_,
          ?_, hreads⟩
        · rw [if_pos hleading]
          exact drop_of_drop [a, b, c] hbehind
        · unfold askedLabels
          simp only [List.map_cons (f := List.map tolower)]
          rw [if_pos (hwww.mp hleading)]
      · refine ⟨[a, b, c] :: labels, rest, hlengths, ?_, ?_, hreads⟩
        · rw [if_neg hleading]
          exact hlayout
        · unfold askedLabels
          simp only [List.map_cons (f := List.map tolower)]
          rw [if_neg fun h => hleading (hwww.mpr h)]
    · have hother : byte buffer 12 ≠ 3 := by
        intro hsame
        have := congrArg UInt8.toNat (hbyte.symm.trans hsame)
        rw [toNat_length hlt, hthree] at this
        exact hlong this
      obtain ⟨hno, hreads⟩ := noWww hother hstart
      refine ⟨label :: labels, rest, hlengths, ?_, ?_, hreads⟩
      · rw [hno]
        exact hlayout
      · unfold askedLabels
        simp only [List.map_cons (f := List.map tolower)]
        rw [if_neg fun h => hlong ?_]
        have := congrArg List.length h
        rw [List.length_map] at this
        exact this

end Question

section Answer
variable (forwarder : Bool) (errorReplyCode : DNSReplyCode) (name : MatchedName) {buffer : List UInt8}
  (labels : List (List UInt8))

theorem answerQuestion_outcome (h : Question buffer labels) (queryLength : Nat) :
    Outcome (askedLabels labels) name.bytes
        (if forwarder = true then .forward else .error errorReplyCode (some queryLength))
        (.error errorReplyCode (some queryLength)) (.ip queryLength) 0
        (answerQuestion forwarder errorReplyCode name.toDomainName buffer queryLength) ∧
      ∀ i ∈ (answerQuestion forwarder errorReplyCode name.toDomainName buffer queryLength).reads,
        i < buffer.length := by
  obtain ⟨asked, rest, hlengths, hlayout, hasked, hwww⟩ := h.compared
  unfold answerQuestion
  rw [if_neg name.nonempty, if_neg name.notWildcard, ← hasked]
  simp only
  refine ⟨?_, ?_⟩
  · obtain ⟨hbeyond, hwithin, hsame, hdiffers, hends⟩ := matchName_outcome
      (m := 0) hlengths hlayout name.holds_name
    exact ⟨hbeyond, hwithin, hsame, hdiffers, hends⟩
  · intro i hi
    rcases List.mem_append.mp hi with hi | hi
    · exact hwww i hi
    · exact matchName_reads hlengths hlayout i hi

end Answer

section Respond
variable (forwarder : Bool) (errorReplyCode : DNSReplyCode) (name : MatchedName) {buffer : List UInt8}

theorem headerReads_inside (hheader : dnsHeaderSize ≤ buffer.length) :
    ∀ i ∈ headerReads, i < buffer.length := by
  intro i hi
  have := List.mem_range.mp hi
  omega

theorem questionReads_inside (hheader : dnsHeaderSize ≤ buffer.length) {start remaining : Nat}
    (hleft : start + remaining = buffer.length) (hfive : ¬ remaining < 5) :
    ∀ i ∈ headerReads ++ (skipName buffer dnsHeaderSize (buffer.length - dnsHeaderSize)).2 ++
      [start + 1, start + 2, start + 3, start + 4], i < buffer.length := by
  intro i hi
  rcases List.mem_append.mp hi with hi | hi
  · rcases List.mem_append.mp hi with hi | hi
    · exact headerReads_inside hheader i hi
    · exact skipName_reads (by omega) i hi
  · simp only [List.mem_cons, List.not_mem_nil, or_false] at hi
    omega

theorem respond_question (hheader : dnsHeaderSize ≤ buffer.length) {labels : List (List UInt8)}
    (h : Question buffer labels) : ∃ queryLength reads, dnsHeaderSize + queryLength ≤ buffer.length ∧
      (∀ i ∈ reads, i < buffer.length) ∧
      respondToRequest forwarder errorReplyCode name.toDomainName buffer =
        (let answer :=
          answerQuestion forwarder errorReplyCode name.toDomainName buffer queryLength
        { answer with reads := reads ++ answer.reads }) := by
  obtain ⟨rest, hlayout, hrest⟩ := h.layout
  have hskipped := skipName_labels h.lengths hlayout
  have hlength := congrArg List.length hlayout
  rw [List.length_drop, List.length_append, List.length_cons] at hlength
  have hfive : ¬ rest.length + 1 < 5 := by omega
  have hleft : dnsHeaderSize + (encodeLabels labels).length + (rest.length + 1) = buffer.length := by
    omega
  have hreads := questionReads_inside hheader hleft hfive
  refine ⟨dnsHeaderSize + (encodeLabels labels).length + 5 - dnsHeaderSize, _, by omega, hreads, ?_⟩
  have hnone : ¬ (short buffer 6 ≠ 0 ∨ short buffer 8 ≠ 0 ∨ short buffer 10 ≠ 0) := by
    obtain ⟨-, hanswers, hservers, hadditional⟩ := h.counts
    rintro (hother | hother | hother)
    · exact hother hanswers
    · exact hother hservers
    · exact hother hadditional
  unfold respondToRequest
  rw [if_neg (Classical.not_not.mpr h.query.1), if_neg (Classical.not_not.mpr h.query.2),
    if_neg (Classical.not_not.mpr h.counts.1), if_neg hnone]
  simp only [hskipped]
  rw [if_neg hfive, if_neg, if_neg]
  · rintro ⟨hnotA, hnotAny⟩
    exact h.type.elim hnotA hnotAny
  · rintro ⟨hnotAny, hnotIn⟩
    exact h.class_.elim hnotIn hnotAny

theorem error_inside {reads : List Nat} (hreads : ∀ i ∈ reads, i < buffer.length)
    (rcode : DNSReplyCode) (queryLength : Option Nat)
    (hquery : dnsHeaderSize + (Response.error rcode queryLength).queryLength ≤ buffer.length) :
    let result : Result := ⟨.error rcode queryLength, reads, []⟩
    (∀ i ∈ result.reads, i < buffer.length) ∧
      dnsHeaderSize + result.response.queryLength ≤ buffer.length ∧ result.nameReads = [] ∧
      ∀ n, result.response ≠ .ip n :=
  ⟨hreads, hquery, rfl, fun _ h => nomatch h⟩

theorem respond_other (hheader : dnsHeaderSize ≤ buffer.length)
    (hnone : ∀ labels, ¬ Question buffer labels) :
    let result := respondToRequest forwarder errorReplyCode name.toDomainName buffer
    (∀ i ∈ result.reads, i < buffer.length) ∧
      dnsHeaderSize + result.response.queryLength ≤ buffer.length ∧ result.nameReads = [] ∧
      ∀ n, result.response ≠ .ip n := by
  have hhead := headerReads_inside hheader
  have hskipReads : ∀ i ∈ headerReads ++
      (skipName buffer dnsHeaderSize (buffer.length - dnsHeaderSize)).2, i < buffer.length := by
    intro i hi
    rcases List.mem_append.mp hi with hi | hi
    · exact hhead i hi
    · exact skipName_reads (by omega) i hi
  unfold respondToRequest
  by_cases hqr : qr buffer ≠ 0
  · rw [if_pos hqr]
    exact ⟨hhead, hheader, rfl, fun _ h => nomatch h⟩
  rw [if_neg hqr]
  by_cases hopCode : opCode buffer ≠ 0
  · rw [if_pos hopCode]
    exact error_inside hhead _ none hheader
  rw [if_neg hopCode]
  by_cases hone : short buffer 4 ≠ 1
  · rw [if_pos hone]
    exact error_inside hhead _ none hheader
  rw [if_neg hone]
  by_cases hothers : short buffer 6 ≠ 0 ∨ short buffer 8 ≠ 0 ∨ short buffer 10 ≠ 0
  · rw [if_pos hothers]
    exact error_inside hhead _ none hheader
  rw [if_neg hothers]
  simp only
  split
  · exact error_inside hskipReads _ none hheader
  · rename_i start remaining hskipped
    by_cases hfive : remaining < 5
    · rw [if_pos hfive]
      exact error_inside hskipReads _ none hheader
    rw [if_neg hfive]
    obtain ⟨hleft, labels, rest, hlengths, hlayout, hstart⟩ :=
      skipName_some (by omega) hskipped (by omega)
    have hreads := questionReads_inside hheader hleft hfive
    have hquery : dnsHeaderSize + (start + 5 - dnsHeaderSize) ≤ buffer.length := by omega
    split
    · exact error_inside hreads _ (some _) hquery
    · rename_i hclass
      split
      · exact error_inside hreads _ (some _) hquery
      · rename_i htype
        exfalso
        have hrest := congrArg List.length hlayout
        rw [List.length_drop, List.length_append, List.length_cons] at hrest
        rw [not_or, not_or] at hothers
        rw [hstart] at hclass htype
        refine hnone labels ⟨⟨Classical.not_not.mp hqr, Classical.not_not.mp hopCode⟩,
          ⟨Classical.not_not.mp hone, Classical.not_not.mp hothers.1,
            Classical.not_not.mp hothers.2.1, Classical.not_not.mp hothers.2.2⟩, hlengths,
          ⟨rest, hlayout, by omega⟩, ?_, ?_⟩
        · exact Classical.byContradiction fun hnot => htype (not_or.mp hnot)
        · exact Classical.byContradiction fun hnot =>
            hclass ⟨(not_or.mp hnot).2, (not_or.mp hnot).1⟩

end Respond

section Answered
variable {forwarder : Bool} {name : MatchedName} {buffer : List UInt8} {failed : DNSReplyCode}
  {queryLength : Nat} {answer : Result} {reads : List Nat}

theorem askedLabels_nonempty {labels : List (List UInt8)} (h : askedName labels = name.bytes) :
    askedLabels labels ≠ [] := by
  intro hnil
  unfold askedName at h
  rw [hnil, List.intercalate_nil] at h
  exact name.nonempty h.symm

theorem exact_iff {labels₀ : List (List UInt8)} (h₀ : Question buffer labels₀)
    (hinside : dnsHeaderSize + queryLength ≤ buffer.length) (hreads : ∀ i ∈ reads, i < buffer.length)
    (houtcome : ∀ labels, Question buffer labels → Outcome (askedLabels labels) name.bytes
      (if forwarder = true then .forward else .error failed (some queryLength))
      (.error failed (some queryLength)) (.ip queryLength) 0 answer)
    (hanswer : ∀ i ∈ answer.reads, i < buffer.length) :
    Exact forwarder name.toDomainName buffer { answer with reads := reads ++ answer.reads } ↔
      ∀ labels, Question buffer labels → Regular forwarder name.toDomainName labels := by
  have hmiss : ∀ n, (if forwarder = true then Response.forward
      else .error failed (some queryLength)) ≠ .ip n := by
    intro n
    split
    · exact fun h => nomatch h
    · exact fun h => nomatch h
  constructor
  · intro hexact labels h
    have hnot : ¬ name.bytes ++ [0] <+: askedName labels := by
      intro hbeyond
      obtain ⟨i, hi, hfar⟩ := (houtcome labels h).beyond hbeyond
      have := hexact.nameReads i hi
      omega
    refine ⟨hnot, fun hforwarder hother => Classical.byContradiction fun hdiffers => ?_⟩
    have hfailed := (houtcome labels h).ends hnot (Or.inr hother) hdiffers
    have hforward := hexact.forwarded hforwarder labels h hother
    exact nomatch hfailed.symm.trans hforward
  · intro hregular
    have hnot := (hregular labels₀ h₀).1
    refine ⟨?_, ?_, ?_, ⟨?_, ?_⟩, ?_⟩
    · intro i hi
      rcases List.mem_append.mp hi with hi | hi
      · exact hreads i hi
      · exact hanswer i hi
    · by_cases hdiffers : DiffersInLabel (askedLabels labels₀) name.bytes
      · rw [(houtcome labels₀ h₀).differs hnot hdiffers]
        split
        · exact Nat.le_trans (Nat.le_add_right _ _) hinside
        · exact hinside
      · by_cases hsame : askedName labels₀ = name.bytes
        · rw [(houtcome labels₀ h₀).same hnot (askedLabels_nonempty hsame) hsame]
          exact hinside
        · rw [(houtcome labels₀ h₀).ends hnot (Or.inr hsame) hdiffers]
          exact hinside
    · intro i hi
      have := (houtcome labels₀ h₀).within hnot i hi
      omega
    · rintro ⟨n, hn⟩
      refine ⟨labels₀, h₀, Classical.byContradiction fun hother => ?_⟩
      by_cases hdiffers : DiffersInLabel (askedLabels labels₀) name.bytes
      · exact hmiss n (((houtcome labels₀ h₀).differs hnot hdiffers).symm.trans hn)
      · exact nomatch ((houtcome labels₀ h₀).ends hnot (Or.inr hother) hdiffers).symm.trans hn
    · rintro ⟨labels, h, hsame⟩
      exact ⟨_, (houtcome labels h).same (hregular labels h).1 (askedLabels_nonempty hsame) hsame⟩
    · intro hforwarder labels h hother
      obtain ⟨hbeyond, hdiffers⟩ := hregular labels h
      refine ((houtcome labels h).differs hbeyond (hdiffers hforwarder hother)).trans ?_
      rw [if_pos hforwarder]

end Answered

/-- For a datagram with at least a header and a name to match, the response is exact if and only
if the name that is asked for, if any, is regular. -/
theorem respondToRequest_exact_iff (forwarder : Bool) (errorReplyCode : DNSReplyCode)
    (name : MatchedName) (query : Query) :
    Exact forwarder name.toDomainName query.buffer
        (respondToRequest forwarder errorReplyCode name.toDomainName query.buffer) ↔
      ∀ labels, Question query.buffer labels → Regular forwarder name.toDomainName labels := by
  by_cases hquestion : ∃ labels, Question query.buffer labels
  · obtain ⟨labels₀, h₀⟩ := hquestion
    obtain ⟨queryLength, reads, hinside, hreads, hresult⟩ :=
      respond_question forwarder errorReplyCode name query.header h₀
    have houtcome := fun labels (h : Question query.buffer labels) =>
      (answerQuestion_outcome forwarder errorReplyCode name labels h queryLength).1
    rw [hresult]
    exact exact_iff h₀ hinside hreads houtcome
      (answerQuestion_outcome forwarder errorReplyCode name labels₀ h₀ queryLength).2
  · have hnone : ∀ labels, ¬ Question query.buffer labels := fun labels h => hquestion ⟨labels, h⟩
    refine iff_of_true ?_ fun labels h => absurd h (hnone labels)
    obtain ⟨hreads, hquery, hname, hresponse⟩ :=
      respond_other forwarder errorReplyCode name query.header hnone
    refine ⟨hreads, hquery, ?_, ?_, fun _ labels h => absurd h (hnone labels)⟩
    · rw [hname]
      exact fun i hi => absurd hi List.not_mem_nil
    · exact iff_of_false (fun ⟨n, hn⟩ => hresponse n hn) fun ⟨labels, h, _⟩ => hnone labels h

def shortName : MatchedName where
  bytes := [97]
  memory := fun i => [97].getD i 0
  holds := fun _ _ => rfl
  terminated := rfl
  nonzero := by simp
  lower := by simp only [List.mem_singleton, forall_eq]; rfl
  nonempty := by decide
  notWildcard := by decide

def longerQuestion : List UInt8 :=
  [0, 7, 1, 0, 0, 1, 0, 0, 0, 0, 0, 0, 1, 97, 1, 98, 0, 0, 1, 0, 1]

theorem longerQuestion_labels : Question longerQuestion [[97], [98]] where
  query := by decide
  counts := by decide
  lengths := by decide
  layout := ⟨[0, 1, 0, 1], rfl, by decide⟩
  type := Or.inl rfl
  class_ := Or.inl rfl

theorem longerQuestion_refused : ¬ Exact true shortName.toDomainName longerQuestion
    (respondToRequest true .nonExistentDomain shortName.toDomainName longerQuestion) := by
  intro hexact
  obtain ⟨queryLength, reads, -, -, hresult⟩ :=
    respond_question true .nonExistentDomain shortName (by decide) longerQuestion_labels
  obtain ⟨houtcome, -⟩ := answerQuestion_outcome true .nonExistentDomain shortName [[97], [98]]
    longerQuestion_labels queryLength
  have hforward := hexact.forwarded rfl _ longerQuestion_labels (by decide)
  rw [hresult] at hforward
  have hfailed := houtcome.ends (by decide) (Or.inr (by decide)) (by
    rintro (hleads | ⟨behind, hbehind, -⟩)
    · exact hleads (List.prefix_refl _)
    · cases hbehind)
  exact nomatch hfailed.symm.trans hforward

end Esp8266.Dns
