import Esp8266.Http.Chunks
import Esp8266.Web.Text

/-! Chunked transfer from `ESP8266WebServer::sendContent` to `HTTPClient::writeToStream`: what
the server sends is read back, and which other streams are taken for a complete body. -/
namespace Esp8266.Http
open Esp8266.Ctype Esp8266.Numeral Esp8266.Streams Esp8266.Web

structure Server where
  head : Bool
  chunked : Bool
  client : List UInt8

def sendContent (s : Server) (content : List UInt8) : Server :=
  if s.head then s
  else
    let s := if s.chunked then { s with client := s.client ++ numeral 16 content.length ++ [13, 10] }
      else s
    let s := { s with client := s.client ++ content }
    if s.chunked then
      { s with client := s.client ++ [13, 10], chunked := decide (content.length ≠ 0) }
    else s

def chunkedAnswer (contents : List Text) : List UInt8 :=
  ((contents.map Text.bytes ++ [[]]).foldl sendContent ⟨false, true, []⟩).client

structure TransfersAll (c : Connection) : Prop where
  connected : ∀ arrivals, arrivals ≠ [] → c.connected arrivals = true
  taken : ∀ (data : List UInt8) (rest : Arrivals), data ≠ [] →
    c.taken (data.map some ++ rest) data.length = data.length
  report : ∀ (data : List UInt8) (rest : Arrivals), data ≠ [] →
    c.report (data.map some ++ rest) data.length = .success

def ChunkExtension (extension : List UInt8) : Prop :=
  (∀ b ∈ extension, b ≠ 13 ∧ b ≠ 10) ∧
    (extension = [] ∨ (extension.dropWhile fun b => b = 32 || b = 9).head? = some 59)

def ChunkHeader (line : List UInt8) (size : Nat) : Prop :=
  ∃ digits extension, line = digits ++ (extension ++ [13]) ∧ digits ≠ [] ∧
    readDigits 16 digits 0 = (size, []) ∧ ChunkExtension extension

def HeaderAt (arrivals : Arrivals) (size : Nat) : Prop :=
  ∃ line rest, arrivals = line.map some ++ some 10 :: rest ∧ ChunkHeader line size

def EndsWhole (c : Connection) (arrivals : Arrivals) : Prop :=
  ∃ headers stop, Chunks c arrivals headers stop ∧ Stops c stop ∧
    (∀ start ∈ headers, HeaderAt start (chunkData c start).length) ∧ HeaderAt stop 0

/-- Where the loop gets to a header that announces no data, and the sizes agree, that header and
each one before it is well-formed, and no chunk has 2^31 bytes or more. -/
def HeadersFormed (c : Connection) (size : Int) (arrivals : Arrivals) : Prop :=
  ∀ headers stop, Chunks c arrivals headers stop → Stops c stop → Accepts c size headers stop →
    (∀ start ∈ headers, ∃ n, n < 2 ^ 31 ∧ HeaderAt start n) ∧ ∃ n, HeaderAt stop n

section Headers

theorem readStringUntil_line {line : List UInt8} {terminator : UInt8}
    (h : ∀ b ∈ line, b ≠ terminator) (rest : Arrivals) :
    readStringUntil terminator (line.map some ++ some terminator :: rest) = (line, rest) := by
  induction line with
  | nil => simp [readStringUntil]
  | cons b line ih =>
    have hb := h b List.mem_cons_self
    rw [List.map_cons, List.cons_append, readStringUntil, if_neg hb,
      ih fun x hx => h x (List.mem_cons_of_mem _ hx)]

theorem ChunkExtension.head {extension : List UInt8} (h : ChunkExtension extension) :
    ∀ b ∈ (extension ++ [13]).head?, digitValue b = none := by
  intro b hb
  cases extension with
  | nil => exact Option.some.inj hb ▸ rfl
  | cons first rest =>
    have hfirst : first = b := Option.some.inj hb
    subst hfirst
    cases h.2 with
    | inl hnil => exact absurd hnil (List.cons_ne_nil _ _)
    | inr hhead =>
      rw [List.dropWhile_cons] at hhead
      split at hhead
      · rename_i hblank
        rw [Bool.or_eq_true, decide_eq_true_eq, decide_eq_true_eq] at hblank
        cases hblank with
        | inl hspace => exact hspace ▸ rfl
        | inr htab => exact htab ▸ rfl
      · exact Option.some.inj hhead ▸ rfl

theorem trim_digits {digits after : List UInt8} {n : Nat}
    (hdigits : readDigits 16 digits 0 = (n, [])) (hne : digits ≠ [])
    (hafter : ∀ b ∈ after.head?, digitValue b = none) :
    ∃ rest, trim (digits ++ after) = digits ++ rest ∧ ∀ b ∈ rest.head?, digitValue b = none := by
  have hall : ∀ b ∈ digits, isspace b = false := by
    intro b hb
    obtain ⟨d, hvalue, -⟩ := readDigits_digits hdigits b hb
    exact isspace_digit hvalue
  have hkeep : ∀ text : List UInt8, text ≠ [] → (∀ b ∈ text, isspace b = false) → ∀ rest,
      (text ++ rest).dropWhile isspace = text ++ rest := by
    intro text htext hnone rest
    obtain ⟨first, others, rfl⟩ := List.exists_cons_of_ne_nil htext
    rw [List.cons_append, List.dropWhile_cons, hnone first List.mem_cons_self]
    rfl
  refine ⟨(after.reverse.dropWhile isspace).reverse, ?_, ?_⟩
  · unfold trim
    rw [hkeep digits hne hall, List.reverse_append, List.dropWhile_append]
    split
    · rename_i hempty
      have hreverse := hkeep digits.reverse (fun hnil => hne (List.reverse_eq_nil_iff.mp hnil))
        (fun b hb => hall b (List.mem_reverse.mp hb)) []
      rw [List.append_nil] at hreverse
      rw [hreverse, List.reverse_reverse, List.isEmpty_iff.mp hempty, List.reverse_nil,
        List.append_nil]
    · rw [List.reverse_append, List.reverse_reverse]
  · intro b hb
    obtain ⟨spaces, hspaces⟩ := List.dropWhile_suffix isspace (l := after.reverse)
    have hleads : (after.reverse.dropWhile isspace).reverse ++ spaces.reverse = after := by
      rw [← List.reverse_append, hspaces, List.reverse_reverse]
    apply hafter
    rw [← hleads, List.head?_append, hb]
    rfl

theorem ChunkHeader.line {line : List UInt8} {size : Nat} (h : ChunkHeader line size) :
    (∀ b ∈ line, b ≠ 10) ∧ line ≠ [] := by
  obtain ⟨digits, extension, rfl, hne, hdigits, hextension⟩ := h
  refine ⟨?_, List.append_ne_nil_of_left_ne_nil hne _⟩
  intro b hb
  rw [List.mem_append, List.mem_append] at hb
  rcases hb with hdigit | hother | hreturn
  · obtain ⟨d, hvalue, -⟩ := readDigits_digits hdigits b hdigit
    rintro rfl
    exact Option.some_ne_none d (hvalue.symm.trans rfl)
  · exact (hextension.1 b hother).2
  · rw [List.mem_singleton.mp hreturn]
    decide

theorem ChunkHeader.size {line : List UInt8} {size : Nat} (h : ChunkHeader line size) :
    chunkSize line = min (2 ^ 31 - 1) (size : Int) := by
  obtain ⟨digits, extension, rfl, hne, hdigits, hextension⟩ := h
  obtain ⟨rest, htrim, hrest⟩ := trim_digits hdigits hne hextension.head
  unfold chunkSize
  rw [htrim, strtol16_digits hne hdigits hrest]
  exact int_of_range (by omega) (by omega)

theorem HeaderAt.announced {arrivals : Arrivals} {size : Nat} (h : HeaderAt arrivals size) :
    announced arrivals = min (2 ^ 31 - 1) (size : Int) := by
  obtain ⟨line, rest, rfl, hheader⟩ := h
  unfold Http.announced header
  rw [readStringUntil_line hheader.line.1]
  exact hheader.size

end Headers

theorem writeToStream_endsWhole (c : Connection) (size : Int) (arrivals : Arrivals) :
    (0 ≤ (writeToStream c .chunked size arrivals).value → EndsWhole c arrivals) ↔
      HeadersFormed c size arrivals := by
  constructor
  · intro hends headers stop hchunks hstop haccepts
    obtain ⟨headers', stop', hchunks', hstop', hheaders, hlast⟩ :=
      hends ((hchunks.nonnegative_iff hstop size).mpr haccepts)
    obtain ⟨rfl, rfl⟩ := hchunks'.unique hstop' hchunks hstop
    refine ⟨?_, 0, hlast⟩
    intro start hstart
    refine ⟨_, ?_, hheaders start hstart⟩
    have hlength := hchunks.data_length start hstart
    have hrange := announced_range start
    omega
  · intro hformed hvalue
    obtain ⟨headers, stop, hchunks, hstop, haccepts⟩ := writeToStream_reaches hvalue
    obtain ⟨hheaders, n, hlast⟩ := hformed headers stop hchunks hstop haccepts
    refine ⟨headers, stop, hchunks, hstop, ?_, ?_⟩
    · intro start hstart
      obtain ⟨size, hsmall, hheader⟩ := hheaders start hstart
      have hlength := hchunks.data_length start hstart
      rw [hheader.announced] at hlength
      rwa [show (chunkData c start).length = size by omega]
    · have hnone := hstop.announces
      rw [hlast.announced] at hnone
      rwa [show n = 0 by omega] at hlast

section Transfer

def chunkText (content : List UInt8) : List UInt8 :=
  numeral 16 content.length ++ [13, 10] ++ content ++ [13, 10]

theorem sendContents_client (contents : List (List UInt8))
    (hne : ∀ content ∈ contents, content ≠ []) (client : List UInt8) :
    contents.foldl sendContent ⟨false, true, client⟩ =
      ⟨false, true, client ++ contents.flatMap chunkText⟩ := by
  induction contents generalizing client with
  | nil => rw [List.foldl_nil, List.flatMap_nil, List.append_nil]
  | cons content contents ih =>
    have hcontent : content.length ≠ 0 := fun hnil =>
      hne content List.mem_cons_self (List.length_eq_zero_iff.mp hnil)
    have hsend : sendContent ⟨false, true, client⟩ content =
        ⟨false, true, client ++ chunkText content⟩ := by
      unfold sendContent chunkText
      simp [hcontent]
    rw [List.foldl_cons, hsend, ih fun other hother => hne other (List.mem_cons_of_mem _ hother),
      List.flatMap_cons, List.append_assoc]

theorem chunkedAnswer_eq (contents : List Text) (hne : ∀ content ∈ contents, content.bytes ≠ []) :
    chunkedAnswer contents =
      contents.flatMap (fun content => chunkText content.bytes) ++ chunkText [] := by
  have hbytes : ∀ bytes ∈ contents.map Text.bytes, bytes ≠ [] := by
    intro bytes hmem
    obtain ⟨content, hcontent, rfl⟩ := List.mem_map.mp hmem
    exact hne content hcontent
  unfold chunkedAnswer
  rw [List.foldl_append, sendContents_client _ hbytes, List.nil_append, List.flatMap_map]
  unfold chunkText
  simp [sendContent]

theorem chunkHeader_numeral (size : Nat) : ChunkHeader (numeral 16 size ++ [13]) size :=
  ⟨numeral 16 size, [], rfl, numeral_ne_nil (by decide) size, readDigits_numeral (by decide) (by decide) size,
    ⟨fun b hb => absurd hb List.not_mem_nil, Or.inl rfl⟩⟩

theorem chunkText_split (content : List UInt8) (rest : Arrivals) :
    (chunkText content).map some ++ rest = (numeral 16 content.length ++ [13]).map some ++
      some 10 :: (content.map some ++ (some 13 :: some 10 :: rest)) := by
  unfold chunkText
  simp

variable {c : Connection}

theorem chunkText_header (content : List UInt8) (rest : Arrivals) :
    readStringUntil 10 ((chunkText content).map some ++ rest) =
      (numeral 16 content.length ++ [13], content.map some ++ (some 13 :: some 10 :: rest)) := by
  rw [chunkText_split]
  exact readStringUntil_line (chunkHeader_numeral content.length).line.1 _

theorem chunkText_announced (content : List UInt8) (hshort : content.length < 2 ^ 31)
    (rest : Arrivals) : announced ((chunkText content).map some ++ rest) = content.length := by
  unfold announced header
  rw [chunkText_header, (chunkHeader_numeral content.length).size]
  omega

theorem chunkText_line (content : List UInt8) (rest : Arrivals) :
    (header ((chunkText content).map some ++ rest)).length ≠ 0 := by
  unfold header
  rw [chunkText_header]
  exact fun hnil => (chunkHeader_numeral content.length).line.2 (List.length_eq_zero_iff.mp hnil)

theorem chunkText_connected (hall : TransfersAll c) (content : List UInt8) (rest : Arrivals) :
    c.connected ((chunkText content).map some ++ rest) = true := by
  apply hall.connected
  rw [chunkText_split]
  exact List.append_ne_nil_of_right_ne_nil _ (List.cons_ne_nil _ _)

theorem received_map (data : List UInt8) : received (data.map some) = data := by
  unfold received
  rw [List.filterMap_map]
  exact List.filterMap_some

theorem chunkText_taken (hall : TransfersAll c) (content : List UInt8) (hne : content ≠ [])
    (hshort : content.length < 2 ^ 31) (rest : Arrivals) :
    TakesChunk c ((chunkText content).map some ++ rest) rest ∧
      chunkData c ((chunkText content).map some ++ rest) = content := by
  have hannounced := chunkText_announced content hshort rest
  have hsize : chunkTaken c ((chunkText content).map some ++ rest) = (content.map some).length := by
    unfold chunkTaken
    rw [hannounced, chunkText_header, List.length_map]
    exact hall.taken content _ hne
  have hpositive := List.length_pos_iff.mpr hne
  refine ⟨⟨chunkText_connected hall content rest, chunkText_line content rest, ?_, ?_, ?_⟩, ?_⟩
  · rw [hannounced]
    omega
  · unfold chunkReport
    rw [hannounced, chunkText_header]
    exact hall.report content _ hne
  · unfold chunkTrailing
    rw [hsize, chunkText_header, List.drop_left]
    rfl
  · unfold chunkData
    rw [hsize, chunkText_header, List.take_left, received_map]

theorem answer_chunks (hall : TransfersAll c) (contents : List Text)
    (hne : ∀ content ∈ contents, content.bytes ≠ []) :
    ∃ headers, Chunks c ((contents.flatMap fun content => chunkText content.bytes).map some ++
        (chunkText []).map some) headers ((chunkText []).map some) ∧
      chunksData c headers = contents.flatMap Text.bytes := by
  induction contents with
  | nil => exact ⟨[], .none _, rfl⟩
  | cons content contents ih =>
    obtain ⟨headers, hchunks, hdata⟩ :=
      ih fun other hother => hne other (List.mem_cons_of_mem _ hother)
    have hfirst := chunkText_taken hall content.bytes (hne content List.mem_cons_self)
      content.short ((contents.flatMap fun content => chunkText content.bytes).map some ++
        (chunkText []).map some)
    rw [List.flatMap_cons, List.map_append, List.append_assoc]
    refine ⟨_ :: headers, .cons hfirst.1 hchunks, ?_⟩
    unfold chunksData at hdata ⊢
    rw [List.flatMap_cons, hfirst.2, hdata, List.flatMap_cons]

theorem answer_stops (hall : TransfersAll c) : Stops c ((chunkText []).map some) := by
  have hconnected := chunkText_connected hall [] []
  have hline := chunkText_line [] []
  have hannounced := chunkText_announced [] (by decide) []
  rw [List.append_nil] at hconnected hline hannounced
  exact ⟨hconnected, hline, Int.le_of_eq hannounced⟩

theorem answer_reads_back (hall : TransfersAll c) (contents : List Text)
    (hne : ∀ content ∈ contents, content.bytes ≠ []) {size : Int} (hsize : size ≤ 0) :
    ((writeToStream c .chunked size ((chunkedAnswer contents).map some)).output =
        contents.flatMap Text.bytes ∧
      (writeToStream c .chunked size ((chunkedAnswer contents).map some)).value =
        (contents.flatMap Text.bytes).length) ↔
      (contents.flatMap Text.bytes).length < 2 ^ 31 := by
  obtain ⟨headers, hchunks, hdata⟩ := answer_chunks hall contents hne
  have hstop := answer_stops hall
  have hannounced := chunkText_announced [] (by decide) []
  rw [List.append_nil] at hannounced
  have hwrites := hchunks.writes hstop size
  simp only [if_pos hsize, hannounced, List.length_nil, Int.natCast_zero, Int.add_zero,
    if_true, hdata] at hwrites
  rw [chunkedAnswer_eq contents hne, List.map_append, hwrites]
  simp only [true_and]
  constructor
  · intro hlength
    have hrange := int_le (contents.flatMap Text.bytes).length
    omega
  · intro hshort
    exact int_of_range (by omega) (by omega)

end Transfer

/-- A chunked answer is read back exactly if it has less than 2^31 bytes, and a stream that
`writeToStream` takes for complete ends with a terminating header exactly if its headers are
well-formed. -/
theorem chunked_transfer_iff (c : Connection) :
    (TransfersAll c → ∀ contents : List Text, (∀ content ∈ contents, content.bytes ≠ []) →
      ∀ size : Int, size ≤ 0 →
        (((writeToStream c .chunked size ((chunkedAnswer contents).map some)).output =
            contents.flatMap Text.bytes ∧
          (writeToStream c .chunked size ((chunkedAnswer contents).map some)).value =
            (contents.flatMap Text.bytes).length) ↔
          (contents.flatMap Text.bytes).length < 2 ^ 31)) ∧
      ∀ size arrivals,
        (0 ≤ (writeToStream c .chunked size arrivals).value → EndsWhole c arrivals) ↔
          HeadersFormed c size arrivals :=
  ⟨fun hall contents hne _ hsize => answer_reads_back hall contents hne hsize,
    fun size arrivals => writeToStream_endsWhole c size arrivals⟩

def Connection.plain : Connection where
  connected arrivals := !arrivals.isEmpty
  taken _ len := len.toNat
  report arrivals len :=
    if (received (arrivals.take len.toNat)).length = len then .success else .timedOut
  whole arrivals len _ h := by
    split at h
    · assumption
    · cases h

theorem plain_transfersAll : TransfersAll Connection.plain where
  connected arrivals h := by
    unfold Connection.plain
    simp [h]
  taken data rest _ := rfl
  report data rest _ := by
    have hlength : (data.length : Int).toNat = (data.map some).length := by
      rw [List.length_map]
      rfl
    unfold Connection.plain
    simp only [hlength, List.take_left, received_map, if_true]

theorem chunked_transfer_two :
    (writeToStream .plain .chunked (-1)
        ((chunkedAnswer [⟨[104, 105], by decide⟩, ⟨[33], by decide⟩]).map some)).output =
      [104, 105, 33] ∧
    (writeToStream .plain .chunked (-1)
        ((chunkedAnswer [⟨[104, 105], by decide⟩, ⟨[33], by decide⟩]).map some)).value = 3 := by
  apply ((chunked_transfer_iff .plain).1 plain_transfersAll
    [⟨[104, 105], by decide⟩, ⟨[33], by decide⟩] ?_ (-1) (by decide)).mpr
  · decide
  · intro content hmem
    rcases List.mem_cons.mp hmem with rfl | hmem
    · exact List.cons_ne_nil _ _
    · rw [List.mem_singleton.mp hmem]
      exact List.cons_ne_nil _ _

theorem emptyLine_ends :
    ¬ (0 ≤ (writeToStream .plain .chunked (-1) [some 13, some 10]).value →
      EndsWhole .plain [some 13, some 10]) := by
  have hchunks : Chunks .plain [some 13, some 10] [] [some 13, some 10] := .none _
  have hstop : Stops .plain [some 13, some 10] := ⟨rfl, by decide, by decide⟩
  have haccepts : Accepts .plain (-1) [] [some 13, some 10] := ⟨by decide, rfl⟩
  intro hends
  obtain ⟨headers, stop, hother, hstop', -, line, rest, hline, hheader⟩ :=
    hends ((hchunks.nonnegative_iff hstop (-1)).mpr haccepts)
  obtain ⟨-, rfl⟩ := hchunks.unique hstop hother hstop'
  obtain ⟨digits, extension, rfl, hne, hdigits, -⟩ := hheader
  obtain ⟨first, others, rfl⟩ := List.exists_cons_of_ne_nil hne
  obtain ⟨d, hvalue, -⟩ := readDigits_digits hdigits first List.mem_cons_self
  have hfirst : (13 : UInt8) = first := Option.some.inj (List.cons.inj hline).1
  exact Option.some_ne_none d (hvalue.symm.trans (hfirst ▸ rfl))

end Esp8266.Http
