import Esp8266.Web.Form

/-! The arguments over the requests of a connection: what handlers and hooks can see, and that
the accessors stay inside the array. -/
namespace Esp8266.Web

structure Request where
  /-- two blanks in the request line -/
  valid : Bool
  /-- no hook, or one that returns `CLIENT_REQUEST_CAN_CONTINUE` -/
  canContinue : Bool
  /-- POST, PUT, PATCH or DELETE -/
  withContent : Bool
  searchStr : List UInt8
  isForm : Bool
  isEncoded : Bool
  boundaryStr : List UInt8
  contentLength : UInt32
  client : List UInt8
  stack : Nat → UInt8

structure Seen where
  args : CurrentArgs
  plainBody : Bool

def plain : List UInt8 := [112, 108, 97, 105, 110]

def CurrentArgs.parse (s : CurrentArgs) (data : List UInt8) (fuel : Nat) : Option CurrentArgs :=
  (parseArguments data fuel (fun i => s.elements.getD i newArgument)).map fun parsed =>
    ⟨some parsed.2, parsed.1, s.currentArgsHavePlain⟩

def CurrentArgs.setPlain (s : CurrentArgs) (plainBuf : List UInt8) : CurrentArgs :=
  ⟨s.currentArgs.map (·.set s.currentArgCount ⟨plain, plainBuf⟩), s.currentArgCount, 1⟩

def parseRequest (fuel : Nat) (s : CurrentArgs) (r : Request) :
    List Seen × Option (Seen × Bool) :=
  let stop := ([⟨s, false⟩], some (⟨s, false⟩, false))
  if !r.valid || !r.canContinue then stop
  else if r.withContent then
    let plainBuf := if r.isForm then [] else r.client.take r.contentLength.toNat
    if !r.isForm && plainBuf.length < r.contentLength.toNat then stop
    else
      let searchStr :=
        if r.isEncoded then
          (if r.searchStr.length ≠ 0 then r.searchStr ++ [38] else r.searchStr) ++ plainBuf
        else r.searchStr
      match s.parse searchStr fuel with
      | none => ([⟨s, false⟩], none)
      | some parsed =>
        if !r.isForm then
          if r.contentLength ≠ 0 then
            ([⟨s, false⟩], some (⟨parsed.setPlain plainBuf, true⟩, true))
          else ([⟨s, false⟩], some (⟨parsed, false⟩, true))
        else
          -- the upload handler sees the arguments of the query
          match parseForm r.boundaryStr r.stack parsed r.contentLength fuel r.client with
          | none => ([⟨s, false⟩, ⟨parsed, false⟩], none)
          | some result =>
            ([⟨s, false⟩, ⟨parsed, false⟩], some (⟨result.args, false⟩, result.success))
  else
    match s.parse r.searchStr fuel with
    | none => ([⟨s, false⟩], none)
    | some parsed => ([⟨s, false⟩], some (⟨parsed, false⟩, true))

/-- The end of `_handleRequest` -/
def CurrentArgs.cleared (s : CurrentArgs) : CurrentArgs := ⟨none, 0, s.currentArgsHavePlain⟩

def serve (fuel : Nat) : CurrentArgs → List Request → List Seen
  | s, [] => [⟨s, false⟩]
  | s, r :: requests =>
    let parsed := parseRequest fuel s r
    parsed.1 ++
      match parsed.2 with
      | none => []
      | some (seen, true) => seen :: serve fuel seen.args.cleared requests
      | some (seen, false) => serve fuel seen.args requests

def CurrentArgs.new : CurrentArgs := ⟨none, 0, 0⟩

structure Seen.Allocated (seen : Seen) : Prop where
  flag : seen.args.currentArgsHavePlain ≤ 1
  arguments : seen.args.currentArgCount ≤ seen.args.elements.length
  content : seen.plainBody = true → seen.args.currentArgCount < seen.args.elements.length

theorem parse_allocated {s parsed : CurrentArgs} {data : List UInt8} {fuel : Nat}
    (h : s.parse data fuel = some parsed) :
    parsed.elements.length = parsed.currentArgCount + 1 ∧
      parsed.currentArgsHavePlain = s.currentArgsHavePlain := by
  unfold CurrentArgs.parse parseArguments at h
  obtain ⟨pair, hpair, rfl⟩ := Option.map_eq_some_iff.mp h
  simp only [Option.bind_eq_bind, Option.bind_eq_some_iff] at hpair
  obtain ⟨counted, -, stored, -, hresult⟩ := hpair
  cases hresult
  refine ⟨?_, rfl⟩
  show ((List.range (counted.1 + 1)).map stored.2.1).length = _
  rw [List.length_map, List.length_range]

theorem parseForm_allocated {boundary : List UInt8} {stack : Nat → UInt8} {s : CurrentArgs}
    {len : UInt32} {fuel : Nat} {client : List UInt8} {r : FormResult}
    (h : parseForm boundary stack s len fuel client = some r)
    (hs : s.currentArgCount ≤ s.elements.length) :
    r.args.currentArgCount ≤ r.args.elements.length ∧
      r.args.currentArgsHavePlain = s.currentArgsHavePlain := by
  unfold parseForm at h
  simp only [] at h
  split at h
  · split at h
    · cases h
    · cases h
      exact ⟨hs, rfl⟩
    · cases h
      exact ⟨Nat.le_refl _, rfl⟩
  · cases h
    exact ⟨hs, rfl⟩

theorem parseRequest_allocated (fuel : Nat) (s : CurrentArgs) (r : Request)
    (hs : Seen.Allocated ⟨s, false⟩) :
    (∀ seen ∈ (parseRequest fuel s r).1, seen.Allocated) ∧
      ∀ seen continues, (parseRequest fuel s r).2 = some (seen, continues) → seen.Allocated := by
  have hstop : (∀ seen ∈ [(⟨s, false⟩ : Seen)], seen.Allocated) := by
    intro seen hseen
    rw [List.mem_singleton.mp hseen]
    exact hs
  have hparsed : ∀ data parsed, s.parse data fuel = some parsed →
      Seen.Allocated ⟨parsed, false⟩ := by
    intro data parsed hparse
    obtain ⟨hlength, hflag⟩ := parse_allocated hparse
    have hcount : parsed.currentArgCount ≤ parsed.elements.length := by omega
    exact ⟨hflag ▸ hs.flag, hcount, by simp⟩
  unfold parseRequest
  simp only []
  split
  · exact ⟨hstop, by rintro seen continues hresult; cases hresult; exact hs⟩
  · split
    · generalize (if r.isForm = true then [] else r.client.take r.contentLength.toNat) = plainBuf
      split
      · exact ⟨hstop, by rintro seen continues hresult; cases hresult; exact hs⟩
      · split
        · exact ⟨hstop, by rintro seen continues hresult; cases hresult⟩
        · rename_i parsed hparse
          obtain ⟨hlength, hflag⟩ := parse_allocated hparse
          split
          · split
            · refine ⟨hstop, ?_⟩
              rintro seen continues hresult
              cases hresult
              have hset : (parsed.setPlain plainBuf).elements.length =
                  parsed.elements.length := by
                unfold CurrentArgs.setPlain CurrentArgs.elements
                cases parsed.currentArgs <;> simp
              refine ⟨Nat.le_refl 1, ?_, fun _ => ?_⟩
              · show parsed.currentArgCount ≤ (parsed.setPlain _).elements.length
                omega
              · show parsed.currentArgCount < (parsed.setPlain _).elements.length
                omega
            · refine ⟨hstop, ?_⟩
              rintro seen continues hresult
              cases hresult
              exact hparsed _ _ hparse
          · have hboth : ∀ seen ∈ [(⟨s, false⟩ : Seen), ⟨parsed, false⟩], seen.Allocated := by
              intro seen hseen
              cases List.mem_cons.mp hseen with
              | inl hfirst => exact hfirst ▸ hs
              | inr hrest => exact List.mem_singleton.mp hrest ▸ hparsed _ _ hparse
            split
            · exact ⟨hboth, by rintro seen continues hresult; cases hresult⟩
            · rename_i result hform
              refine ⟨hboth, ?_⟩
              rintro seen continues hresult
              cases hresult
              obtain ⟨hcount, hsame⟩ := parseForm_allocated hform (by omega)
              exact ⟨hsame ▸ hflag ▸ hs.flag, hcount, by simp⟩
    · split
      · exact ⟨hstop, by rintro seen continues hresult; cases hresult⟩
      · rename_i parsed hparse
        refine ⟨hstop, ?_⟩
        rintro seen continues hresult
        cases hresult
        exact hparsed _ _ hparse

theorem cleared_allocated {seen : Seen} (h : seen.Allocated) :
    Seen.Allocated ⟨seen.args.cleared, false⟩ :=
  ⟨h.flag, Nat.le_refl 0, by simp⟩

theorem serve_allocated (fuel : Nat) (s : CurrentArgs) (requests : List Request)
    (hs : Seen.Allocated ⟨s, false⟩) : ∀ seen ∈ serve fuel s requests, seen.Allocated := by
  induction requests generalizing s with
  | nil =>
    intro seen hseen
    exact List.mem_singleton.mp hseen ▸ hs
  | cons r requests ih =>
    obtain ⟨hduring, hresult⟩ := parseRequest_allocated fuel s r hs
    intro seen hseen
    rw [serve] at hseen
    cases List.mem_append.mp hseen with
    | inl hmem => exact hduring seen hmem
    | inr hmem =>
      cases hparsed : (parseRequest fuel s r).2 with
      | none =>
        rw [hparsed] at hmem
        exact absurd hmem List.not_mem_nil
      | some parsed =>
        obtain ⟨last, continues⟩ := parsed
        have hlast := hresult last continues hparsed
        rw [hparsed] at hmem
        cases continues with
        | true =>
          cases List.mem_cons.mp hmem with
          | inl hfirst => exact hfirst ▸ hlast
          | inr hrest => exact ih _ (cleared_allocated hlast) seen hrest
        | false => exact ih _ ⟨hlast.flag, hlast.arguments, by simp⟩ seen hmem

theorem plain_key {key : List UInt8} (h : equals key plain = true) : key = plain := by
  unfold equals at h
  rw [Bool.and_eq_true, decide_eq_true_eq, decide_eq_true_eq] at h
  obtain ⟨hlength, hvisible⟩ := h
  obtain ⟨hidden, hkey, -⟩ := visible_append key
  have hplain : visible plain = plain := rfl
  rw [hvisible, hplain] at hkey
  rw [hkey, List.length_append] at hlength
  rw [hkey, List.length_eq_zero_iff.mp (show hidden.length = 0 by omega), List.append_nil]

structure Accessible (seen : Seen) : Prop where
  inside : seen.args.visited ≤ seen.args.elements.length
  arg : ∀ name, (seen.args.arg name).isSome = true ∧ (seen.args.hasArg name).isSome = true
  argAt : ∀ i, (seen.args.argValue i).isSome = true ∧ (seen.args.argName i).isSome = true
  plain : seen.args.hasArg plain = some true → seen.plainBody = true ∨
    ∃ arg ∈ seen.args.elements.take seen.args.currentArgCount, arg.key = plain

theorem accessible_of {seen : Seen} (h : seen.Allocated)
    (hflag : seen.args.currentArgsHavePlain = 0 ∨ seen.plainBody = true) : Accessible seen := by
  have hinside : seen.args.visited ≤ seen.args.elements.length := by
    have harguments := h.arguments
    have hone := h.flag
    unfold CurrentArgs.visited
    cases hflag with
    | inl hzero => omega
    | inr hplain =>
      have hcontent := h.content hplain
      omega
  have hfind := fun name =>
    CurrentArgs.find_isSome seen.args.elements name seen.args.visited 0 (by omega)
  have hindex : ∀ field i, (seen.args.argAt field i).isSome = true := by
    intro field i
    unfold CurrentArgs.argAt
    split
    · rename_i hi
      rw [Bool.and_eq_true, decide_eq_true_eq, decide_eq_true_eq] at hi
      rw [List.getElem?_eq_getElem (by omega)]
      rfl
    · rfl
  refine ⟨hinside, fun name => ?_, fun i => ⟨hindex _ i, hindex _ i⟩, fun hplain => ?_⟩
  · obtain ⟨found, hfound, -⟩ := hfind name
    unfold CurrentArgs.arg CurrentArgs.hasArg
    rw [hfound]
    exact ⟨rfl, rfl⟩
  · obtain ⟨found, hfound, hat⟩ := hfind plain
    unfold CurrentArgs.hasArg at hplain
    rw [hfound, Option.map_some, Option.some.injEq] at hplain
    obtain ⟨arg, harg⟩ := Option.isSome_iff_exists.mp hplain
    obtain ⟨j, -, hj, helement, hkey⟩ := hat arg harg
    cases hflag with
    | inr hbody => exact Or.inl hbody
    | inl hzero =>
      right
      refine ⟨arg, ?_, plain_key hkey⟩
      apply List.mem_of_getElem? (i := j)
      unfold CurrentArgs.visited at hj
      rw [List.getElem?_take_of_lt (by omega), helement]

def postPlain : Request :=
  ⟨true, true, true, [], false, false, [], 2, [123, 125], fun _ => 0⟩

def getPlain : Request :=
  ⟨true, true, false, [112, 108, 97, 105, 110, 61, 49], false, false, [], 0, [], fun _ => 0⟩

end Esp8266.Web
