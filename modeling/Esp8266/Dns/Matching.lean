import Esp8266.Dns.Request

/-! The loops of `respondToRequest` on labels: which labels are skipped, how they are compared
with the name, and when the result is exact. -/
namespace Esp8266.Dns
open Esp8266.Ctype

section Encoding

theorem encodeLabels_cons (label : List UInt8) (labels : List (List UInt8)) :
    encodeLabels (label :: labels) = UInt8.ofNat label.length :: (label ++ encodeLabels labels) := by
  unfold encodeLabels
  rw [List.flatMap_cons, List.cons_append]

theorem byte_of_drop {buffer : List UInt8} {start : Nat} {c : UInt8} {rest : List UInt8}
    (h : buffer.drop start = c :: rest) : byte buffer start = c ∧ start < buffer.length := by
  have hlength := congrArg List.length h
  rw [List.length_drop, List.length_cons] at hlength
  refine ⟨?_, by omega⟩
  unfold byte
  have hhead := congrArg (fun l => l[0]?) h
  simp only [List.getElem?_drop, Nat.add_zero, List.getElem?_cons_zero] at hhead
  rw [List.getD_eq_getElem?_getD, hhead]
  rfl

theorem drop_of_drop {buffer : List UInt8} {start : Nat} (first : List UInt8) {rest : List UInt8}
    (h : buffer.drop start = first ++ rest) : buffer.drop (start + first.length) = rest := by
  rw [← List.drop_drop, h, List.drop_left]

theorem toNat_length {label : List UInt8} (h : label.length < 256) :
    (UInt8.ofNat label.length).toNat = label.length := by
  rw [UInt8.toNat_ofNat', Nat.mod_eq_of_lt h]

theorem length_ne_zero {label : List UInt8} (hpos : 0 < label.length) (h : label.length < 256) :
    UInt8.ofNat label.length ≠ 0 := by
  intro hzero
  have := congrArg UInt8.toNat hzero
  rw [toNat_length h, UInt8.toNat_zero] at this
  omega

end Encoding

section Skip
variable {buffer : List UInt8}

theorem skipName_labels {labels : List (List UInt8)} {rest : List UInt8} {start : Nat}
    (hlengths : ∀ label ∈ labels, 0 < label.length ∧ label.length < 256)
    (hlayout : buffer.drop start = encodeLabels labels ++ 0 :: rest) :
    (skipName buffer start (buffer.length - start)).1 =
      some (start + (encodeLabels labels).length, rest.length + 1) := by
  induction labels generalizing start with
  | nil =>
    rw [encodeLabels, List.flatMap_nil, List.nil_append] at hlayout
    obtain ⟨hbyte, hstart⟩ := byte_of_drop hlayout
    have hlength := congrArg List.length hlayout
    rw [List.length_drop, List.length_cons] at hlength
    rw [skipName, if_neg (by omega), if_pos hbyte, hlength]
    rfl
  | cons label labels ih =>
    obtain ⟨hpos, hlt⟩ := hlengths label List.mem_cons_self
    rw [encodeLabels_cons, List.cons_append] at hlayout
    obtain ⟨hbyte, hstart⟩ := byte_of_drop hlayout
    have hnext : buffer.drop (start + (label.length + 1)) = encodeLabels labels ++ 0 :: rest := by
      rw [List.append_assoc, ← List.cons_append] at hlayout
      exact drop_of_drop (UInt8.ofNat label.length :: label) hlayout
    have hlength := congrArg List.length hlayout
    simp only [List.length_drop, List.length_cons, List.length_append] at hlength
    rw [skipName, if_neg (by omega), hbyte, if_neg (length_ne_zero hpos hlt), toNat_length hlt]
    simp only
    rw [if_neg (by omega), Nat.sub_sub,
      ih (fun other hother => hlengths other (List.mem_cons_of_mem _ hother)) hnext,
      encodeLabels_cons, List.length_cons, List.length_append]
    congr 2
    omega

theorem skipName_some {start remaining stop left : Nat}
    (hremaining : start + remaining = buffer.length)
    (h : (skipName buffer start remaining).1 = some (stop, left)) (hleft : left ≠ 0) :
    stop + left = buffer.length ∧ ∃ labels rest,
      (∀ label ∈ labels, 0 < label.length ∧ label.length < 256) ∧
      buffer.drop start = encodeLabels labels ++ 0 :: rest ∧
      stop = start + (encodeLabels labels).length := by
  induction remaining using Nat.strongRecOn generalizing start with
  | ind remaining ih =>
    rw [skipName] at h
    split at h
    · obtain ⟨rfl, rfl⟩ := Prod.mk.inj (Option.some.inj h)
      omega
    · rename_i hsome
      have hstart : start < buffer.length := by omega
      have hdrop : buffer.drop start = byte buffer start :: buffer.drop (start + 1) := by
        rw [List.drop_eq_getElem_cons hstart]
        unfold byte
        rw [List.getD_eq_getElem?_getD, List.getElem?_eq_getElem hstart]
        rfl
      split at h
      · rename_i hzero
        obtain ⟨rfl, rfl⟩ := Prod.mk.inj (Option.some.inj h)
        refine ⟨hremaining, [], buffer.drop (start + 1), ?_, ?_, ?_⟩
        · exact fun label hlabel => absurd hlabel List.not_mem_nil
        · rw [hdrop, hzero]
          rfl
        · rfl
      · rename_i hlabel
        simp only at h
        split at h
        · cases h
        · rename_i hfits
          have hpos : 0 < (byte buffer start).toNat := by
            refine Nat.pos_of_ne_zero fun hzero => hlabel (UInt8.toNat_inj.mp ?_)
            rw [hzero]
            rfl
          obtain ⟨hstop, labels, rest, hlengths, hlayout, hskipped⟩ :=
            ih (remaining - ((byte buffer start).toNat + 1)) (by omega) (by omega) h
          have hlabelLength : ((buffer.drop (start + 1)).take (byte buffer start).toNat).length =
              (byte buffer start).toNat := by
            rw [List.length_take, List.length_drop]
            omega
          refine ⟨hstop, (buffer.drop (start + 1)).take (byte buffer start).toNat :: labels, rest,
            ?_, ?_, ?_⟩
          · intro label hmem
            rcases List.mem_cons.mp hmem with rfl | hmem
            · rw [hlabelLength]
              exact ⟨hpos, (byte buffer start).toNat_lt⟩
            · exact hlengths label hmem
          · have hsecond : buffer.drop (start + ((byte buffer start).toNat + 1)) =
                (buffer.drop (start + 1)).drop (byte buffer start).toNat := by
              rw [List.drop_drop]
              congr 1
              omega
            rw [encodeLabels_cons, hlabelLength, UInt8.ofNat_toNat, List.cons_append, hdrop,
              List.append_assoc, ← hlayout, hsecond, List.take_append_drop]
          · rw [encodeLabels_cons, List.length_cons, List.length_append, hlabelLength, hskipped]
            omega

/-- No byte behind the packet is looked at. -/
theorem skipName_reads {start remaining : Nat} (hremaining : start + remaining = buffer.length) :
    ∀ i ∈ (skipName buffer start remaining).2, i < buffer.length := by
  induction remaining using Nat.strongRecOn generalizing start with
  | ind remaining ih =>
    rw [skipName]
    split
    · exact fun i hi => absurd hi List.not_mem_nil
    · split
      · intro i hi
        rw [List.mem_singleton.mp hi]
        omega
      · simp only
        split
        · intro i hi
          rw [List.mem_singleton.mp hi]
          omega
        · intro i hi
          rcases List.mem_cons.mp hi with rfl | hi
          · omega
          · exact ih _ (by omega) (by omega) i hi

end Skip

section Compare
variable {buffer : List UInt8} {memory : Nat → UInt8}

def Holds (memory : Nat → UInt8) : Nat → List UInt8 → Prop
  | m, [] => memory m = 0
  | m, c :: name => memory m = c ∧ c ≠ 0 ∧ Holds memory (m + 1) name

theorem holds_of_forall {m : Nat} {name : List UInt8}
    (hbytes : ∀ i, i < name.length → memory (m + i) = name.getD i 0)
    (hend : memory (m + name.length) = 0) (hnonzero : ∀ c ∈ name, c ≠ 0) : Holds memory m name := by
  induction name generalizing m with
  | nil => exact hend
  | cons c name ih =>
    refine ⟨hbytes 0 (Nat.zero_lt_succ _), hnonzero c List.mem_cons_self, ih ?_ ?_ ?_⟩
    · intro i hi
      have hnext := hbytes (i + 1) (Nat.succ_lt_succ hi)
      rw [Nat.add_assoc, Nat.add_comm 1 i]
      exact hnext
    · rw [Nat.add_assoc, Nat.add_comm 1 name.length]
      exact hend
    · exact fun other hother => hnonzero other (List.mem_cons_of_mem _ hother)

theorem DomainName.holds_name (name : DomainName) : Holds name.memory 0 name.bytes := by
  refine holds_of_forall (fun i hi => ?_) ?_ name.nonzero
  · rw [Nat.zero_add]
    exact name.holds i hi
  · rw [Nat.zero_add]
    exact name.terminated

theorem Holds.drop {m : Nat} {first rest : List UInt8} (h : Holds memory m (first ++ rest)) :
    Holds memory (m + first.length) rest := by
  induction first generalizing m with
  | nil => exact h
  | cons c first ih =>
    have hrest := ih h.2.2
    rw [List.length_cons, Nat.add_comm first.length 1, ← Nat.add_assoc]
    exact hrest

theorem Holds.end_iff {m : Nat} {name : List UInt8} (h : Holds memory m name) :
    memory m = 0 ↔ name = [] := by
  cases name with
  | nil => exact iff_of_true h rfl
  | cons c name =>
    obtain ⟨hc, hnonzero, -⟩ := h
    exact iff_of_false (hc ▸ hnonzero) (List.cons_ne_nil _ _)

structure Compared (label name : List UInt8) (m : Nat) (equal : Bool) (nameReads : List Nat) :
    Prop where
  within : label <+: name → equal = true ∧ ∀ i ∈ nameReads, i < m + label.length
  beyond : name ++ [0] <+: label → (∃ i ∈ nameReads, m + name.length < i) ∨
    equal = true ∧ label.length = name.length + 1
  differs : ¬ label <+: name → ¬ name ++ [0] <+: label →
    equal = false ∧ ∀ i ∈ nameReads, i ≤ m + name.length

theorem compared_nil (name : List UInt8) (m : Nat) : Compared [] name m true [] where
  within _ := ⟨rfl, fun _ h => absurd h List.not_mem_nil⟩
  beyond h := by simp at h
  differs h := absurd List.nil_prefix h

theorem compared_miss {c : UInt8} {label name : List UInt8} {m : Nat} (hmemory : Holds memory m name)
    (hc : c ≠ memory m) : Compared (c :: label) name m false [m] := by
  have hreads : ∀ i ∈ [m], i ≤ m + name.length := by
    intro i hi
    rw [List.mem_singleton.mp hi]
    exact Nat.le_add_right _ _
  cases name with
  | nil =>
    refine ⟨fun h => absurd (List.prefix_nil.mp h) (List.cons_ne_nil _ _), fun h => ?_,
      fun _ _ => ⟨rfl, hreads⟩⟩
    rw [List.nil_append, List.cons_prefix_cons] at h
    exact absurd (h.1.symm.trans hmemory.symm) hc
  | cons e name =>
    refine ⟨fun h => ?_, fun h => ?_, fun _ _ => ⟨rfl, hreads⟩⟩
    · rw [List.cons_prefix_cons] at h
      exact absurd (h.1.trans hmemory.1.symm) hc
    · rw [List.cons_append, List.cons_prefix_cons] at h
      exact absurd (h.1.symm.trans hmemory.1.symm) hc

theorem matchLabel_compared {label rest : List UInt8} {name : List UInt8} {start m : Nat}
    (hlayout : buffer.drop start = label ++ rest) (hmemory : Holds memory m name) :
    Compared (label.map tolower) name m (matchLabel buffer memory label.length start m).1
      (matchLabel buffer memory label.length start m).2.2 := by
  induction label generalizing start m name with
  | nil => exact compared_nil name m
  | cons c label ih =>
    obtain ⟨hbyte, -⟩ := byte_of_drop hlayout
    have hnext : buffer.drop (start + 1) = label ++ rest :=
      drop_of_drop [c] hlayout
    rw [List.length_cons, matchLabel, hbyte, List.map_cons]
    split
    · rename_i hmiss
      exact compared_miss hmemory hmiss
    · rename_i hsame
      have hequal : tolower c = memory m := Classical.not_not.mp hsame
      simp only
      cases name with
      | nil =>
        rw [hequal, hmemory]
        refine ⟨fun h => absurd (List.prefix_nil.mp h) (List.cons_ne_nil _ _), fun _ => ?_,
          fun _ h => absurd (List.cons_prefix_cons.mpr ⟨rfl, List.nil_prefix⟩) h⟩
        cases label with
        | nil => exact Or.inr ⟨rfl, rfl⟩
        | cons d label =>
          -- the byte behind the terminator is read next
          refine Or.inl ⟨m + 1, List.mem_cons_of_mem _ ?_, Nat.lt_succ_self _⟩
          rw [List.length_cons, matchLabel]
          split <;> exact List.mem_cons_self
      | cons e name =>
        have hrest := ih hnext hmemory.2.2
        rw [hequal, hmemory.1]
        refine ⟨fun h => ?_, fun h => ?_, fun hwithin hbeyond => ?_⟩
        · obtain ⟨heq, hreads⟩ := hrest.within (List.cons_prefix_cons.mp h).2
          refine ⟨heq, fun i hi => ?_⟩
          rw [List.length_cons]
          rcases List.mem_cons.mp hi with rfl | hi
          · omega
          · have := hreads i hi
            omega
        · rw [List.cons_append, List.cons_prefix_cons] at h
          rcases hrest.beyond h.2 with ⟨i, hi, hfar⟩ | ⟨heq, hlength⟩
          · refine Or.inl ⟨i, List.mem_cons_of_mem _ hi, ?_⟩
            rw [List.length_cons]
            omega
          · refine Or.inr ⟨heq, ?_⟩
            rw [List.length_cons, List.length_cons, hlength]
        · obtain ⟨heq, hreads⟩ := hrest.differs
            (fun h => hwithin (List.cons_prefix_cons.mpr ⟨rfl, h⟩))
            (fun h => hbeyond (List.cons_prefix_cons.mpr ⟨rfl, h⟩))
          refine ⟨heq, fun i hi => ?_⟩
          rw [List.length_cons]
          rcases List.mem_cons.mp hi with rfl | hi
          · omega
          · have := hreads i hi
            omega

theorem matchLabel_reads (buffer : List UInt8) (memory : Nat → UInt8) (labelLength start m : Nat) :
    ∀ i ∈ (matchLabel buffer memory labelLength start m).2.1, i < start + labelLength := by
  induction labelLength generalizing start m with
  | zero => exact fun i hi => absurd hi List.not_mem_nil
  | succ labelLength ih =>
    rw [matchLabel]
    split
    · intro i hi
      rw [List.mem_singleton.mp hi]
      omega
    · intro i hi
      rcases List.mem_cons.mp hi with rfl | hi
      · omega
      · have := ih (start + 1) (m + 1) i hi
        omega

end Compare

section Match

theorem joined_cons (label : List UInt8) {labels : List (List UInt8)} (h : labels ≠ []) :
    List.intercalate [46] (label :: labels) = label ++ 46 :: List.intercalate [46] labels := by
  rw [List.intercalate_cons_of_ne_nil h, List.append_assoc]
  rfl

theorem prefix_joined (label : List UInt8) (labels : List (List UInt8)) :
    label <+: List.intercalate [46] (label :: labels) := by
  cases labels with
  | nil =>
    exact ⟨[], by rw [List.intercalate_singleton, List.append_nil]⟩
  | cons next labels =>
    rw [joined_cons label (List.cons_ne_nil _ _)]
    exact List.prefix_append _ _

structure Outcome (labels : List (List UInt8)) (name : List UInt8) (miss failed found : Response)
    (m : Nat) (result : Result) : Prop where
  beyond : name ++ [0] <+: List.intercalate [46] labels →
    ∃ i ∈ result.nameReads, m + name.length < i
  within : ¬ name ++ [0] <+: List.intercalate [46] labels →
    ∀ i ∈ result.nameReads, i ≤ m + name.length
  same : ¬ name ++ [0] <+: List.intercalate [46] labels → labels ≠ [] →
    List.intercalate [46] labels = name → result.response = found
  differs : ¬ name ++ [0] <+: List.intercalate [46] labels →
    DiffersInLabel labels name → result.response = miss
  ends : ¬ name ++ [0] <+: List.intercalate [46] labels →
    (labels = [] ∨ List.intercalate [46] labels ≠ name) → ¬ DiffersInLabel labels name →
    result.response = failed

section Cases
variable {label : List UInt8} {labels : List (List UInt8)} {name : List UInt8}
  {miss failed found : Response} {m : Nat} {result : Result}

theorem outcome_beyond (h : name ++ [0] <+: label) (hreads : ∃ i ∈ result.nameReads, m + name.length < i) :
    Outcome (label :: labels) name miss failed found m result := by
  have hleads := h.trans (prefix_joined label labels)
  exact ⟨fun _ => hreads, fun hnot => absurd hleads hnot, fun hnot => absurd hleads hnot,
    fun hnot => absurd hleads hnot, fun hnot => absurd hleads hnot⟩

theorem outcome_miss (hwithin : ¬ label <+: name) (hbeyond : ¬ name ++ [0] <+: label)
    (hresponse : result.response = miss) (hreads : ∀ i ∈ result.nameReads, i ≤ m + name.length) :
    Outcome (label :: labels) name miss failed found m result := by
  have hjoined := prefix_joined label labels
  have hnot : ¬ name ++ [0] <+: List.intercalate [46] (label :: labels) := by
    intro h
    rcases List.prefix_or_prefix_of_prefix h hjoined with hlonger | hshorter
    · exact hbeyond hlonger
    · rcases List.prefix_concat_iff.mp hshorter with hequal | hleads
      · exact hbeyond (hequal ▸ List.prefix_refl _)
      · exact hwithin hleads
  refine ⟨fun h => absurd h hnot, fun _ => hreads, fun _ _ hsame => ?_, fun _ _ => hresponse,
    fun _ _ hdiffers => absurd (Or.inl hwithin) hdiffers⟩
  exact absurd (hsame ▸ hjoined) hwithin

theorem outcome_last {name' : List UInt8} (hfound : name' = [] → result.response = found)
    (hfailed : name' ≠ [] → result.response = failed)
    (hreads : ∀ i ∈ result.nameReads, i ≤ m + (label ++ name').length) :
    Outcome [label] (label ++ name') miss failed found m result := by
  have hnot : ¬ label ++ name' ++ [0] <+: List.intercalate [46] [label] := by
    rw [List.intercalate_singleton]
    intro h
    have := h.length_le
    simp only [List.length_append, List.length_singleton] at this
    omega
  have hdiffers : ¬ DiffersInLabel [label] (label ++ name') := by
    rintro (hleads | ⟨behind, -, hnone⟩)
    · exact hleads (List.prefix_append _ _)
    · exact hnone
  refine ⟨fun h => absurd h hnot, fun _ => hreads, ?_, fun _ h => absurd h hdiffers, ?_⟩
  · intro _ _ hsame
    rw [List.intercalate_singleton] at hsame
    exact hfound (List.append_cancel_left (hsame.symm.trans (List.append_nil label).symm))
  · intro _ hends _
    refine hfailed fun hnil => ?_
    rcases hends with hempty | hother
    · cases hempty
    · rw [hnil, List.append_nil, List.intercalate_singleton] at hother
      exact hother rfl

theorem outcome_noDot {name' : List UInt8} (hlabels : labels ≠ []) (hdot : name'.head? ≠ some 46)
    (hresponse : result.response = failed)
    (hreads : ∀ i ∈ result.nameReads, i ≤ m + (label ++ name').length) :
    Outcome (label :: labels) (label ++ name') miss failed found m result := by
  have hnot : ¬ label ++ name' ++ [0] <+: List.intercalate [46] (label :: labels) := by
    rw [joined_cons label hlabels, List.append_assoc, List.prefix_append_right_inj]
    intro h
    cases name' with
    | nil => exact absurd (List.cons_prefix_cons.mp h).1 (by decide)
    | cons c name' => exact hdot (congrArg some (List.cons_prefix_cons.mp h).1)
  have hother : List.intercalate [46] (label :: labels) ≠ label ++ name' := by
    rw [joined_cons label hlabels]
    intro h
    exact hdot (by rw [← List.append_cancel_left h]; rfl)
  have hdiffers : ¬ DiffersInLabel (label :: labels) (label ++ name') := by
    rintro (hleads | ⟨behind, hbehind, -⟩)
    · exact hleads (List.prefix_append _ _)
    · exact hdot (by rw [List.append_cancel_left hbehind]; rfl)
  exact ⟨fun h => absurd h hnot, fun _ => hreads, fun _ _ hsame => absurd hsame hother,
    fun _ h => absurd h hdiffers, fun _ _ _ => hresponse⟩

theorem outcome_dot {name' : List UInt8} {rest : Result} {before : List Nat} (hlabels : labels ≠ [])
    (hrest : Outcome labels name' miss failed found (m + label.length + 1) rest)
    (hresponse : result.response = rest.response) (hreads : result.nameReads = before ++ rest.nameReads)
    (hbefore : ∀ i ∈ before, i ≤ m + label.length) :
    Outcome (label :: labels) (label ++ 46 :: name') miss failed found m result := by
  have hleads : label ++ 46 :: name' ++ [0] <+: List.intercalate [46] (label :: labels) ↔
      name' ++ [0] <+: List.intercalate [46] labels := by
    rw [joined_cons label hlabels, List.append_assoc, List.prefix_append_right_inj, List.cons_append,
      List.cons_prefix_cons]
    exact and_iff_right rfl
  have hsame : List.intercalate [46] (label :: labels) = label ++ 46 :: name' ↔
      List.intercalate [46] labels = name' := by
    rw [joined_cons label hlabels, List.append_cancel_left_eq, List.cons_inj_right]
  have hdiffers : DiffersInLabel (label :: labels) (label ++ 46 :: name') ↔
      DiffersInLabel labels name' := by
    constructor
    · rintro (hnot | ⟨behind, hbehind, hrest⟩)
      · exact absurd (List.prefix_append _ _) hnot
      · rw [List.append_cancel_left_eq, List.cons_inj_right] at hbehind
        rw [hbehind]
        exact hrest
    · exact fun h => Or.inr ⟨name', rfl, h⟩
  have hlength : m + (label ++ 46 :: name').length = m + label.length + 1 + name'.length := by
    rw [List.length_append, List.length_cons]
    omega
  refine ⟨?_, ?_, ?_, ?_, ?_⟩
  · intro h
    obtain ⟨i, hi, hfar⟩ := hrest.beyond (hleads.mp h)
    rw [hreads, hlength]
    exact ⟨i, List.mem_append_right _ hi, hfar⟩
  · intro h i hi
    rw [hreads] at hi
    rw [hlength]
    rcases List.mem_append.mp hi with hi | hi
    · have := hbefore i hi
      omega
    · exact hrest.within (fun hbad => h (hleads.mpr hbad)) i hi
  · intro h _ heq
    rw [hresponse]
    exact hrest.same (fun hbad => h (hleads.mpr hbad)) hlabels (hsame.mp heq)
  · intro h hdiff
    rw [hresponse]
    exact hrest.differs (fun hbad => h (hleads.mpr hbad)) (hdiffers.mp hdiff)
  · intro h hends hdiff
    rw [hresponse]
    refine hrest.ends (fun hbad => h (hleads.mpr hbad)) ?_ fun hbad => hdiff (hdiffers.mpr hbad)
    rcases hends with hempty | hother
    · cases hempty
    · exact Or.inr fun heq => hother (hsame.mpr heq)

end Cases

theorem outcome_none {name : List UInt8} {miss failed found : Response} {m : Nat} {reads : List Nat} :
    Outcome [] name miss failed found m ⟨failed, reads, []⟩ := by
  refine ⟨fun h => ?_, fun _ i hi => absurd hi List.not_mem_nil, fun _ h => absurd rfl h,
    fun _ h => absurd h id, fun _ _ _ => rfl⟩
  have := h.length_le
  simp at this

theorem next_byte {buffer : List UInt8} {labels : List (List UInt8)} {rest : List UInt8} {start : Nat}
    (hlengths : ∀ label ∈ labels, 0 < label.length ∧ label.length < 256)
    (hlayout : buffer.drop start = encodeLabels labels ++ 0 :: rest) :
    (byte buffer start = 0 ↔ labels = []) ∧ start < buffer.length := by
  cases labels with
  | nil =>
    obtain ⟨hbyte, hstart⟩ := byte_of_drop hlayout
    exact ⟨iff_of_true hbyte rfl, hstart⟩
  | cons label labels =>
    obtain ⟨hpos, hlt⟩ := hlengths label List.mem_cons_self
    rw [encodeLabels_cons, List.cons_append] at hlayout
    obtain ⟨hbyte, hstart⟩ := byte_of_drop hlayout
    exact ⟨iff_of_false (hbyte ▸ length_ne_zero hpos hlt) (List.cons_ne_nil _ _), hstart⟩

section Loop
variable {miss failed : Response} {buffer : List UInt8} {memory : Nat → UInt8} {queryLength : Nat}

theorem matchName_cons (miss failed : Response) (memory : Nat → UInt8) (queryLength m : Nat)
    {label : List UInt8} {labels : List (List UInt8)} {rest : List UInt8} {start : Nat} (hpos : 0 < label.length) (hlt : label.length < 256)
    (hlayout : buffer.drop start = encodeLabels (label :: labels) ++ 0 :: rest) :
    buffer.drop (start + 1) = label ++ (encodeLabels labels ++ 0 :: rest) ∧
    buffer.drop (start + 1 + label.length) = encodeLabels labels ++ 0 :: rest ∧
    matchName miss failed buffer memory queryLength start m =
      (let compared := matchLabel buffer memory label.length (start + 1) m
      if compared.1 = false then ⟨miss, start :: compared.2.1, compared.2.2⟩
      else
        let reads := start :: compared.2.1 ++ [start + 1 + label.length]
        let nameReads := compared.2.2 ++ [m + label.length]
        if byte buffer (start + 1 + label.length) = 0 ∧ memory (m + label.length) = 0 then
          ⟨.ip queryLength, reads, nameReads⟩
        else if memory (m + label.length) ≠ 46 then ⟨failed, reads, nameReads⟩
        else
          let rest := matchName miss failed buffer memory queryLength (start + 1 + label.length)
            (m + label.length + 1)
          ⟨rest.response, reads ++ rest.reads, nameReads ++ rest.nameReads⟩) := by
  rw [encodeLabels_cons, List.cons_append, List.append_assoc] at hlayout
  obtain ⟨hbyte, -⟩ := byte_of_drop hlayout
  have hlabel : buffer.drop (start + 1) = label ++ (encodeLabels labels ++ 0 :: rest) :=
    drop_of_drop [UInt8.ofNat label.length] hlayout
  refine ⟨hlabel, drop_of_drop label hlabel, ?_⟩
  rw [matchName, dif_neg (hbyte ▸ length_ne_zero hpos hlt), hbyte, toNat_length hlt]

theorem matchName_reads {labels : List (List UInt8)} {rest : List UInt8} {start m : Nat}
    (hlengths : ∀ label ∈ labels, 0 < label.length ∧ label.length < 256)
    (hlayout : buffer.drop start = encodeLabels labels ++ 0 :: rest) :
    ∀ i ∈ (matchName miss failed buffer memory queryLength start m).reads, i < buffer.length := by
  have hstart := (next_byte hlengths hlayout).2
  induction labels generalizing start m with
  | nil =>
    rw [matchName, dif_pos ((next_byte hlengths hlayout).1.mpr rfl)]
    intro i hi
    rw [List.mem_singleton.mp hi]
    exact hstart
  | cons label labels ih =>
    obtain ⟨hpos, hlt⟩ := hlengths label List.mem_cons_self
    have hrestLengths := fun other hother => hlengths other (List.mem_cons_of_mem label hother)
    obtain ⟨-, hnext, hstep⟩ := matchName_cons miss failed memory queryLength m hpos hlt
      hlayout
    have hnextStart := (next_byte hrestLengths hnext).2
    have hreads := matchLabel_reads buffer memory label.length (start + 1) m
    rw [hstep]
    simp only
    generalize matchLabel buffer memory label.length (start + 1) m = compared at hreads ⊢
    have hfirst : ∀ i ∈ start :: compared.2.1, i < buffer.length := by
      intro i hi
      rcases List.mem_cons.mp hi with rfl | hi
      · exact hstart
      · have := hreads i hi
        omega
    have hsecond : ∀ i ∈ start :: compared.2.1 ++ [start + 1 + label.length], i < buffer.length := by
      intro i hi
      rcases List.mem_append.mp hi with hi | hi
      · exact hfirst i hi
      · rw [List.mem_singleton.mp hi]
        exact hnextStart
    split
    · exact hfirst
    · split
      · exact hsecond
      · split
        · exact hsecond
        · intro i hi
          rcases List.mem_append.mp hi with hi | hi
          · exact hsecond i hi
          · exact ih hrestLengths hnext hnextStart i hi

theorem matchName_outcome {labels : List (List UInt8)} {rest name : List UInt8} {start m : Nat}
    (hlengths : ∀ label ∈ labels, 0 < label.length ∧ label.length < 256)
    (hlayout : buffer.drop start = encodeLabels labels ++ 0 :: rest) (hmemory : Holds memory m name) :
    Outcome (labels.map (List.map tolower)) name miss failed (.ip queryLength) m
      (matchName miss failed buffer memory queryLength start m) := by
  induction labels generalizing start m name with
  | nil =>
    rw [matchName, dif_pos ((next_byte hlengths hlayout).1.mpr rfl)]
    exact outcome_none
  | cons label labels ih =>
    obtain ⟨hpos, hlt⟩ := hlengths label List.mem_cons_self
    have hrestLengths := fun other hother => hlengths other (List.mem_cons_of_mem label hother)
    obtain ⟨hlabel, hnext, hstep⟩ := matchName_cons miss failed memory queryLength m hpos hlt
      hlayout
    have hlast := (next_byte hrestLengths hnext).1
    have hcompared := matchLabel_compared hlabel hmemory
    have hlow : (label.map tolower).length = label.length := List.length_map _
    rw [hstep, List.map_cons]
    simp only
    generalize matchLabel buffer memory label.length (start + 1) m = compared at hcompared ⊢
    by_cases hwithin : label.map tolower <+: name
    · obtain ⟨hequal, hinside⟩ := hcompared.within hwithin
      rw [hlow] at hinside
      obtain ⟨name', rfl⟩ := hwithin
      have hbehind := hmemory.drop
      rw [hlow] at hbehind
      have hnameReads : ∀ i ∈ compared.2.2 ++ [m + label.length], i ≤ m + label.length := by
        intro i hi
        rcases List.mem_append.mp hi with hi | hi
        · exact Nat.le_of_lt (hinside i hi)
        · exact Nat.le_of_eq (List.mem_singleton.mp hi)
      have hshort : ∀ i ∈ compared.2.2 ++ [m + label.length],
          i ≤ m + (label.map tolower ++ name').length := by
        intro i hi
        have := hnameReads i hi
        rw [List.length_append, hlow]
        omega
      rw [if_neg (by rw [hequal]; exact Bool.true_eq_false.mp)]
      by_cases hnone : labels = []
      · subst hnone
        rw [List.map_nil]
        by_cases hend : name' = []
        · rw [if_pos ⟨hlast.mpr rfl, hbehind.end_iff.mpr hend⟩]
          exact outcome_last (fun _ => rfl) (fun h => absurd hend h) hshort
        · rw [if_neg fun h => hend (hbehind.end_iff.mp h.2)]
          split
          · exact outcome_last (fun h => absurd h hend) (fun _ => rfl) hshort
          · -- a dot at the end of the name
            rw [matchName, dif_pos (hlast.mpr rfl)]
            refine outcome_last (fun h => absurd h hend) (fun _ => rfl) ?_
            rw [List.append_nil]
            exact hshort
      · rw [if_neg fun h => hnone (hlast.mp h.1)]
        have hmore : labels.map (List.map tolower) ≠ [] := fun h => hnone (List.map_eq_nil_iff.mp h)
        split
        · rename_i hdot
          refine outcome_noDot hmore ?_ rfl hshort
          intro h
          cases name' with
          | nil => cases h
          | cons e name' => exact hdot (hbehind.1.trans (Option.some.inj h))
        · rename_i hdot
          have hfour : memory (m + label.length) = 46 := Classical.not_not.mp hdot
          cases name' with
          | nil => exact absurd (hfour.symm.trans hbehind) (by decide)
          | cons e name' =>
            obtain ⟨he, -, hrest⟩ := hbehind
            obtain rfl : e = 46 := he.symm.trans hfour
            have houtcome := ih hrestLengths hnext hrest
            rw [← hlow] at houtcome hnameReads
            refine outcome_dot hmore houtcome ?_ ?_ hnameReads
            · simp only [hlow]
            · simp only [hlow]
    · by_cases hbeyond : name ++ [0] <+: label.map tolower
      · apply outcome_beyond hbeyond
        rcases hcompared.beyond hbeyond with ⟨i, hi, hfar⟩ | ⟨hequal, hlength⟩
        · refine ⟨i, ?_, hfar⟩
          split
          · exact hi
          · split
            · exact List.mem_append_left _ hi
            · split
              · exact List.mem_append_left _ hi
              · exact List.mem_append_left _ (List.mem_append_left _ hi)
        · rw [hlow] at hlength
          refine ⟨m + label.length, ?_, by omega⟩
          have hread : m + label.length ∈ compared.2.2 ++ [m + label.length] :=
            List.mem_append_right _ (List.mem_singleton_self _)
          rw [if_neg (by rw [hequal]; exact Bool.true_eq_false.mp)]
          split
          · exact hread
          · split
            · exact hread
            · exact List.mem_append_left _ hread
      · obtain ⟨hequal, hnameReads⟩ := hcompared.differs hwithin hbeyond
        rw [if_pos hequal]
        exact outcome_miss hwithin hbeyond rfl hnameReads

end Loop

end Match

end Esp8266.Dns
