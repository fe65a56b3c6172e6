import Esp8266.Library.Machine
import Esp8266.Web.StaticFiles

/-! Which file a directory handler sends and where it lies, and what a 304 of either handler says
about the file. -/
namespace Esp8266.StaticFiles
open Esp8266.PathNames Esp8266.Runs

def candidates (path : Text) : List Text :=
  path :: ((if gz.isSuffixOf path then [] else [path ++ gz]) ++
    if htm.isSuffixOf path then [path ++ ['l'], path ++ ['l'] ++ gz] else [])

/-- A slash stands between the directory and what follows the URI, and nothing there goes up; or
nothing follows and the directory is one. -/
def Handler.Clean (h : Handler) (tree : Tree) (uri : Text) : Prop :=
  Parted h.path (h.behind uri) ∧ NeverUp (h.behind uri) ∨
    h.behind uri = [] ∧ tree (locate h.path) = some .directory

def Handler.SameBelow (h : Handler) (tree tree' : Tree) : Prop :=
  ∀ below, tree (locate h.path ++ below) = tree' (locate h.path ++ below)

theorem orGz_orHtml_candidates (tree : Tree) (path : Text)
    (h : present tree (orGz tree (orHtml tree path)) = true) :
    (candidates path).find? (present tree) = some (orGz tree (orHtml tree path)) := by
  have hending : gz.isSuffixOf (path ++ ['l']) = false := by
    apply Bool.eq_false_iff.mpr
    intro hgz
    obtain ⟨front, hfront⟩ := List.isSuffixOf_iff_suffix.mp hgz
    have hlast := congrArg List.getLast? hfront
    rw [List.getLast?_concat, List.getLast?_append] at hlast
    exact absurd (show some 'z' = some 'l' from hlast) (by decide)
  unfold candidates
  cases hpath : present tree path with
  | true =>
    have hhtml : orHtml tree path = path := by
      unfold orHtml
      simp [hpath]
    have hgz : orGz tree path = path := by
      unfold orGz
      simp [hpath]
    rw [hhtml, hgz, List.find?_cons_of_pos hpath]
  | false =>
    rw [List.find?_cons_of_neg (by simp [hpath])]
    cases hzipped : present tree (path ++ gz) with
    | true =>
      have hhtml : orHtml tree path = path := by
        unfold orHtml
        simp [hzipped]
      rw [hhtml] at h ⊢
      unfold orGz at h ⊢
      cases hgz : gz.isSuffixOf path with
      | true => simp [hgz, hpath] at h
      | false => simp [hpath, hzipped]
    | false =>
      have hnone : (if gz.isSuffixOf path then [] else [path ++ gz]).find? (present tree) = none := by
        split
        · rfl
        · rw [List.find?_cons_of_neg (by simp [hzipped])]
          rfl
      rw [List.find?_append, hnone, Option.none_or]
      cases hhtm : htm.isSuffixOf path with
      | true =>
        have hhtml : orHtml tree path = path ++ ['l'] := by
          unfold orHtml
          simp [hpath, hzipped, hhtm]
        rw [hhtml] at h ⊢
        unfold orGz at h ⊢
        cases hlong : present tree (path ++ ['l']) with
        | true => simp [hlong]
        | false =>
          cases hlongzipped : present tree (path ++ ['l'] ++ gz) with
          | true =>
            rw [if_pos rfl, List.find?_cons_of_neg (by simp [hlong]),
              List.find?_cons_of_pos hlongzipped, if_pos (by simp [hending]), if_pos rfl]
          | false =>
            rw [if_pos (by simp [hending, hlong]), hlongzipped] at h
            exact absurd (hlong.symm.trans h) (by decide)
      | false =>
        have hhtml : orHtml tree path = path := by
          unfold orHtml
          simp [hhtm]
        rw [hhtml] at h
        unfold orGz at h
        simp [hpath, hzipped] at h

theorem openFile_present {tree : Tree} {path : Text} {content : List UInt8}
    (h : openFile tree path = some content) : present tree path = true := by
  unfold openFile at h
  unfold present
  cases hnode : tree (locate path) with
  | none =>
    rw [hnode] at h
    exact absurd h (by simp)
  | some node => rfl

structure Handler.Under (h : Handler) (path : Text) : Prop where
  split : ∃ back, path = h.path ++ back ∧ Parted h.path back ∧ NeverUp back

namespace Handler
variable {h : Handler}

theorem Under.append {path : Text} (hunder : h.Under path) {ending : Text}
    (hslash : '/' ∉ ending) (hlast : ∃ front c, ending = front ++ [c] ∧ c ≠ '.') :
    h.Under (path ++ ending) := by
  obtain ⟨back, rfl, hparted, hup⟩ := hunder.split
  refine ⟨back ++ ending, List.append_assoc _ _ _, ?_, hup.append hslash hlast⟩
  rcases hparted with hfront | ⟨text, rfl⟩
  · exact .inl hfront
  · exact .inr ⟨text ++ ending, rfl⟩

theorem Under.located {path : Text} (hunder : h.Under path) :
    ∃ below, locate path = locate h.path ++ below := by
  obtain ⟨back, rfl, hparted, hup⟩ := hunder.split
  rw [locate_append hparted]
  exact locateFrom_down _ hup

theorem under_requestPath {uri : Text} (hparted : Parted h.path (h.behind uri))
    (hup : NeverUp (h.behind uri)) : h.Under (h.requestPath uri) := by
  have hunder : h.Under (h.path ++ h.behind uri) := ⟨_, rfl, hparted, hup⟩
  unfold Handler.requestPath
  simp only
  split
  · exact hunder.append (by decide) ⟨['i', 'n', 'd', 'e', 'x', '.', 'h', 't'], 'm', rfl, by decide⟩
  · exact hunder

theorem Under.gz {path : Text} (hunder : h.Under path) : h.Under (path ++ gz) :=
  hunder.append (by decide) ⟨['.', 'g'], 'z', rfl, by decide⟩

theorem Under.orHtml {path : Text} (hunder : h.Under path) (tree : Tree) :
    h.Under (orHtml tree path) := by
  unfold StaticFiles.orHtml
  split
  · exact hunder.append (by decide) ⟨[], 'l', rfl, by decide⟩
  · exact hunder

theorem Under.orGz {path : Text} (hunder : h.Under path) (tree : Tree) :
    h.Under (orGz tree path) := by
  unfold StaticFiles.orGz
  split
  · split
    · exact hunder.gz
    · exact hunder
  · exact hunder

section
variable {tree tree' : Tree} (hsame : h.SameBelow tree tree')
include hsame

theorem SameBelow.node {path : Text} (hunder : h.Under path) :
    tree (locate path) = tree' (locate path) := by
  obtain ⟨below, hbelow⟩ := hunder.located
  rw [hbelow]
  exact hsame below

theorem SameBelow.present {path : Text} (hunder : h.Under path) :
    present tree path = present tree' path := by
  unfold StaticFiles.present
  rw [hsame.node hunder]

theorem SameBelow.openFile {path : Text} (hunder : h.Under path) :
    openFile tree path = openFile tree' path := by
  unfold StaticFiles.openFile
  rw [hsame.node hunder]

theorem SameBelow.orHtml {path : Text} (hunder : h.Under path) :
    orHtml tree path = orHtml tree' path := by
  unfold StaticFiles.orHtml
  rw [hsame.present hunder, hsame.present hunder.gz]

theorem SameBelow.orGz {path : Text} (hunder : h.Under path) :
    orGz tree path = orGz tree' path := by
  unfold StaticFiles.orGz
  rw [hsame.present hunder, hsame.present hunder.gz]

end

end Handler

theorem Request.carried {request : Request} {code : Text} (h : request.header = code)
    (hne : code ≠ []) : request.ifNoneMatch = some code := by
  unfold Request.header at h
  cases hvalue : request.ifNoneMatch with
  | none =>
    rw [hvalue] at h
    exact absurd h.symm hne
  | some value =>
    rw [hvalue] at h
    exact congrArg some h

section
variable (checksum : List UInt8 → Text)

theorem Handler.handleDirectory_cases (h : Handler) (server : Server) (tree : Tree)
    (request : Request) :
    h.handleDirectory checksum server tree request = .notHandled ∨
      ∃ file content, (candidates (h.requestPath request.uri)).find? (present tree) = some file ∧
        file = orGz tree (orHtml tree (h.requestPath request.uri)) ∧
        openFile tree file = some content ∧
        (h.handleDirectory checksum server tree request = .notModified ∧
            server.eTagEnabled = true ∧ request.header = server.eTag checksum tree file ∨
          h.handleDirectory checksum server tree request =
            .sent (h.streamFile server request file
              (getContentType (orHtml tree (h.requestPath request.uri)))
              (if server.eTagEnabled then server.eTag checksum tree file else []) content)) := by
  unfold Handler.handleDirectory
  split
  · simp only
    cases hopen : openFile tree (orGz tree (orHtml tree (h.requestPath request.uri))) with
    | none => exact .inl rfl
    | some content =>
      right
      refine ⟨_, content, orGz_orHtml_candidates tree _ (openFile_present hopen), rfl, hopen, ?_⟩
      by_cases hsame : server.eTagEnabled = true ∧ request.header = server.eTag checksum tree
          (orGz tree (orHtml tree (h.requestPath request.uri)))
      · left
        refine ⟨if_pos ?_, hsame⟩
        simp [hsame.1, ← hsame.2]
      · right
        apply if_neg
        intro hboth
        simp only [Bool.and_eq_true, decide_eq_true_eq] at hboth
        rw [if_pos hboth.1] at hboth
        exact hsame hboth
  · exact .inl rfl

theorem Handler.of_sent {h : Handler} {server : Server} {tree : Tree} {request : Request} {s : Sent}
    (hsent : h.handleDirectory checksum server tree request = .sent s) :
    (candidates (h.requestPath request.uri)).find? (present tree) = some s.file ∧
      s.file = orGz tree (orHtml tree (h.requestPath request.uri)) ∧
      ∃ content, openFile tree s.file = some content ∧ s.contentLength = content.length ∧
        s.content = if request.method = .get then some content else none := by
  rcases h.handleDirectory_cases checksum server tree request with
    hnone | ⟨file, content, hfind, hfile, hopen, ⟨hno, -⟩ | hyes⟩
  · rw [hnone] at hsent
    exact absurd hsent (by simp)
  · rw [hno] at hsent
    exact absurd hsent (by simp)
  · rw [hyes] at hsent
    injection hsent with hs
    subst hs
    exact ⟨hfind, hfile, content, hopen, rfl, rfl⟩

theorem Handler.handleDirectory_itself {h : Handler} {request : Request} {tree : Tree}
    (server : Server) (hnothing : h.behind request.uri = [])
    (hdirectory : tree (locate h.path) = some .directory) (hslash : ¬ Parted h.path []) :
    h.handleDirectory checksum server tree request = .notHandled := by
  have hpath : h.requestPath request.uri = h.path := by
    unfold Handler.requestPath
    rw [hnothing, List.append_nil]
    apply if_neg
    intro hends
    obtain ⟨front, hfront⟩ := List.isSuffixOf_iff_suffix.mp hends
    exact hslash (.inl ⟨front, hfront.symm⟩)
  have hpresent : present tree h.path = true := by
    unfold present
    rw [hdirectory]
    rfl
  have hopen : openFile tree h.path = none := by
    unfold openFile
    rw [hdirectory]
  unfold Handler.handleDirectory
  split
  · simp [hpath, orHtml, orGz, hpresent, hopen]
  · rfl

theorem Handler.handleDirectory_same {h : Handler} {request : Request} {tree tree' : Tree}
    (server : Server) (hparted : Parted h.path (h.behind request.uri))
    (hup : NeverUp (h.behind request.uri)) (hsame : h.SameBelow tree tree')
    (hfunction : ∀ eTagFunction, server.eTagFunction = some eTagFunction →
      ∀ path, eTagFunction tree path = eTagFunction tree' path) :
    h.handleDirectory checksum server tree request =
      h.handleDirectory checksum server tree' request := by
  have hunder := h.under_requestPath hparted hup
  have hhtml := hsame.orHtml hunder
  have hgz := hsame.orGz (hunder.orHtml tree)
  have hopen := hsame.openFile ((hunder.orHtml tree).orGz tree)
  have htag : server.eTag checksum tree (orGz tree (orHtml tree (h.requestPath request.uri))) =
      server.eTag checksum tree' (orGz tree (orHtml tree (h.requestPath request.uri))) := by
    unfold Server.eTag
    cases hcustom : server.eTagFunction with
    | some eTagFunction => exact hfunction eTagFunction hcustom _
    | none =>
      show calcETag checksum tree _ = calcETag checksum tree' _
      unfold calcETag
      rw [hopen]
  unfold Handler.handleDirectory
  simp only
  rw [htag, hopen, hgz, hhtml]

def suffixNames (h : Handler) (uri : Text) : List Text :=
  let path := h.path ++ h.behind uri
  [path, path ++ gz, path ++ indexHtm, path ++ indexHtm ++ gz, path ++ indexHtm ++ ['l'],
    path ++ indexHtm ++ ['l'] ++ gz]

theorem candidates_suffixNames {h : Handler} {uri : Text}
    (hhtm : htm.isSuffixOf (h.path ++ h.behind uri) = false) {file : Text}
    (hfile : file ∈ candidates (h.requestPath uri)) : file ∈ suffixNames h uri := by
  unfold candidates Handler.requestPath at hfile
  unfold suffixNames
  simp only at hfile ⊢
  split at hfile
  · split at hfile <;> split at hfile <;> simp only [List.nil_append, List.cons_append, List.mem_cons,
      List.not_mem_nil, or_false] at hfile ⊢ <;> grind
  · rw [hhtm] at hfile
    split at hfile <;> simp only [Bool.false_eq_true, if_false, List.append_nil, List.mem_cons,
      List.not_mem_nil, or_false] at hfile ⊢ <;> grind

structure Visit where
  server : Server
  tree : Tree
  request : Request

def Handler.visits (h : Handler) : Machine Text Visit Response where
  step held v := h.handleFile checksum v.server held v.tree v.request

def Handler.TaggedAt (h : Handler) (code : Text) (v : Visit) : Prop :=
  h.takesExactly v.request = true ∧ v.server.eTagEnabled = true ∧
    code = v.server.eTag checksum v.tree h.path

theorem Handler.nextCode_cases (h : Handler) (server : Server) (held : Text) (tree : Tree) :
    h.nextCode checksum server held tree = held ∧
        (server.eTagEnabled = true → held ≠ [] ∧ server.eTagFunction = none) ∨
      server.eTagEnabled = true ∧
        h.nextCode checksum server held tree = server.eTag checksum tree h.path := by
  unfold Handler.nextCode Server.eTag
  by_cases henabled : server.eTagEnabled = true
  · rw [if_pos henabled]
    cases hcustom : server.eTagFunction with
    | some eTagFunction => exact .inr ⟨henabled, rfl⟩
    | none =>
      by_cases hheld : held = []
      · right
        refine ⟨henabled, ?_⟩
        rw [hheld]
        rfl
      · left
        refine ⟨if_neg ?_, fun _ => ⟨hheld, rfl⟩⟩
        rw [List.isEmpty_iff]
        exact hheld
  · rw [if_neg henabled]
    exact .inl ⟨rfl, fun h => absurd h henabled⟩

theorem Handler.visits_step (h : Handler) (held : Text) (v : Visit) :
    (((h.visits checksum).step held v).1 = held ∨
      h.TaggedAt checksum ((h.visits checksum).step held v).1 v) ∧
    (((h.visits checksum).step held v).2 = .notModified →
      h.takesExactly v.request = true ∧ v.server.eTagEnabled = true ∧
      v.request.header = h.nextCode checksum v.server held v.tree) := by
  have hstep : (h.visits checksum).step held v =
      h.handleFile checksum v.server held v.tree v.request := rfl
  rw [hstep]
  unfold Handler.handleFile
  by_cases htaken : h.takesExactly v.request = true
  · rw [if_pos htaken]
    have hcases := h.nextCode_cases checksum v.server held v.tree
    generalize hcode : h.nextCode checksum v.server held v.tree = code at hcases ⊢
    have hleft : code = held ∨ h.TaggedAt checksum code v := by
      rcases hcases with ⟨hheld, -⟩ | ⟨henabled, htag⟩
      · exact .inl hheld
      · exact .inr ⟨htaken, henabled, htag⟩
    simp only
    by_cases hsame : (v.server.eTagEnabled && decide (v.request.header = code)) = true
    · rw [if_pos hsame]
      simp only [Bool.and_eq_true, decide_eq_true_eq] at hsame
      exact ⟨hleft, fun _ => ⟨htaken, hsame⟩⟩
    · rw [if_neg hsame]
      cases openFile v.tree h.path with
      | none => exact ⟨hleft, fun hno => absurd hno (by simp)⟩
      | some content => exact ⟨hleft, fun hno => absurd hno (by simp)⟩
  · rw [if_neg htaken]
    exact ⟨.inl rfl, fun hno => absurd hno (by simp)⟩

theorem Handler.visits_run (h : Handler) (visits : List Visit) (held : Text) :
    ((h.visits checksum).run held visits).1 = held ∨
      ∃ v ∈ visits, h.TaggedAt checksum ((h.visits checksum).run held visits).1 v := by
  induction visits generalizing held with
  | nil => exact .inl rfl
  | cons v visits ih =>
    rw [Machine.run_cons]
    rcases ih ((h.visits checksum).step held v).1 with hsame | ⟨v', hv', htagged⟩
    · rw [hsame]
      rcases (h.visits_step checksum held v).1 with hheld | htagged
      · exact .inl hheld
      · exact .inr ⟨v, List.mem_cons_self, htagged⟩
    · exact .inr ⟨v', List.mem_cons_of_mem v hv', htagged⟩

theorem Handler.visits_notModified (h : Handler) (earlier : List Visit) (v : Visit)
    (hno : ((h.visits checksum).step ((h.visits checksum).run [] earlier).1 v).2 = .notModified) :
    ∃ v' ∈ v :: earlier, h.TaggedAt checksum v.request.header v' ∧
      (v.server.eTagFunction ≠ none → v' = v) := by
  obtain ⟨htaken, henabled, hheader⟩ := (h.visits_step checksum _ v).2 hno
  rcases h.nextCode_cases checksum v.server ((h.visits checksum).run [] earlier).1 v.tree with
    ⟨hheld, hwhen⟩ | ⟨-, htag⟩
  · obtain ⟨hne, hfunction⟩ := hwhen henabled
    rcases h.visits_run checksum earlier [] with hnil | ⟨v', hv', htagged⟩
    · exact absurd hnil hne
    · rw [hheader, hheld]
      exact ⟨v', List.mem_cons_of_mem v hv', htagged, fun hsome => absurd hfunction hsome⟩
  · rw [hheader, htag]
    exact ⟨v, List.mem_cons_self, ⟨htaken, henabled, rfl⟩, fun _ => rfl⟩

/-- What is promised of the handlers of `serveStatic`, whatever the file system holds -/
structure ServesStatic (h : Handler) : Prop where
  /-- the first of the names that exists is sent -/
  order : ∀ (server : Server) (tree : Tree) (request : Request) (s : Sent),
    h.handleDirectory checksum server tree request = .sent s →
    (candidates (h.requestPath request.uri)).find? (present tree) = some s.file ∧
      ∃ content, tree (locate s.file) = some (.file content) ∧
        s.contentLength = content.length ∧
        s.content = if request.method = .get then some content else none
  /-- it is one of the documented names, unless the path ends with `.htm` -/
  names : ∀ (server : Server) (tree : Tree) (request : Request) (s : Sent),
    h.handleDirectory checksum server tree request = .sent s →
    htm.isSuffixOf (h.path ++ h.behind request.uri) = false → s.file ∈ suffixNames h request.uri
  /-- it lies below the directory -/
  inside : ∀ (server : Server) (tree : Tree) (request : Request) (s : Sent),
    h.Clean tree request.uri → (∀ content, tree (locate h.path) ≠ some (.file content)) →
    h.handleDirectory checksum server tree request = .sent s →
    ∃ below, below ≠ [] ∧ locate s.file = locate h.path ++ below
  /-- and nothing outside of it changes a response -/
  outside : ∀ (server : Server) (tree tree' : Tree) (request : Request),
    h.Clean tree request.uri → h.SameBelow tree tree' →
    (∀ eTagFunction, server.eTagFunction = some eTagFunction →
      ∀ path, eTagFunction tree path = eTagFunction tree' path) →
    h.handleDirectory checksum server tree request =
      h.handleDirectory checksum server tree' request
  /-- a 304 for a directory: the header is the ETag of the file that would be sent -/
  directoryNotModified : ∀ (server : Server) (tree : Tree) (request : Request),
    h.handleDirectory checksum server tree request = .notModified →
    server.eTagEnabled = true ∧ ∃ file content,
      (candidates (h.requestPath request.uri)).find? (present tree) = some file ∧
      tree (locate file) = some (.file content) ∧
      request.header = server.eTag checksum tree file ∧
      (server.eTagFunction = none →
        request.ifNoneMatch = some ('"' :: (checksum content ++ ['"']))) ∧
      (server.eTag checksum tree file ≠ [] →
        request.ifNoneMatch = some (server.eTag checksum tree file))
  /-- a 304 for a file: it is the ETag when it was calculated, at this visit or an earlier one -/
  fileNotModified : ∀ (earlier : List Visit) (v : Visit),
    ((h.visits checksum).step ((h.visits checksum).run [] earlier).1 v).2 = .notModified →
    ∃ v' ∈ v :: earlier, h.TaggedAt checksum v.request.header v' ∧
      (v.server.eTagFunction ≠ none → v' = v) ∧
      (v.request.header ≠ [] → v.request.ifNoneMatch = some v.request.header)
  /-- so with a function, or a file that is the same at all visits, it is the one of the moment -/
  fileFresh : ∀ (earlier : List Visit) (v : Visit),
    (v.server.eTagFunction ≠ none ∨ ∀ v' ∈ earlier,
      v'.server.eTag checksum v'.tree h.path = v.server.eTag checksum v.tree h.path) →
    v.server.eTag checksum v.tree h.path ≠ [] →
    ((h.visits checksum).step ((h.visits checksum).run [] earlier).1 v).2 = .notModified →
    v.request.ifNoneMatch = some (v.server.eTag checksum v.tree h.path)

theorem openFile_node {tree : Tree} {path : Text} {content : List UInt8}
    (h : openFile tree path = some content) : tree (locate path) = some (.file content) := by
  unfold openFile at h
  split at h
  · rename_i found hfound
    rw [hfound, Option.some.inj h]
  · exact absurd h (by simp)

end

def onlyHtml (content : List UInt8) : Tree := fun place =>
  if place = [] then some .directory
  else if place = [['a', '.', 'h', 't', 'm', 'l']] then some (.file content)
  else none

def rootHandler : Handler := ⟨['/'], ['/'], [], none⟩

def htmlHandler : Handler :=
  ⟨['/', 'a'], ['/', 'a', '.', 'h', 't', 'm', 'l'], [], none⟩

def sampleChecksum (content : List UInt8) : Text := content.map fun b => Char.ofNat (b.toNat + 65)

end Esp8266.StaticFiles
