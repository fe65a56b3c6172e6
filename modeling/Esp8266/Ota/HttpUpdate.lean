import Esp8266.Http.KeepAlive
import Esp8266.Update.Reset

/-! `ESP8266HTTPUpdate`: an update from what a server answers to one request. The callbacks, the
restart and what the request says about the chip are left out. -/
namespace Esp8266.HttpUpdate
open Esp8266.Flash Esp8266.Update Esp8266.Http Esp8266.Runs

inductive HTTPUpdateResult where
  | failed
  | noUpdates
  | ok
  deriving DecidableEq

def serverUnauthorized : Int := -108
def binForWrongFlash : Int := -107
def binVerifyHeaderFailed : Int := -106
def serverFaultyMd5 : Int := -105
def serverWrongHttpCode : Int := -104
def serverForbidden : Int := -103
def serverFileNotFound : Int := -102
def serverNotReportSize : Int := -101
def tooLessSpace : Int := -100

def errorCode : UpdateError → Int
  | .ok => 0
  | .write => 1
  | .erase => 2
  | .read => 3
  | .space => 4
  | .size => 5
  | .stream => 6
  | .md5 => 7
  | .flashConfig => 8
  | .newFlashConfig => 9
  | .magicByte => 10
  | .bootstrap => 11
  | .sign => 12
  | .noData => 13
  | .oom => 14
  | .runningAlready => 15
  | .unknownCommand => 16

theorem errorCode_ne_zero {error : UpdateError} (h : error ≠ .ok) : errorCode error ≠ 0 := by
  cases error
  case ok => exact absurd rfl h
  all_goals decide

/-- The chip, and what `begin` and `end` find on it. -/
structure Device where
  board : Board
  env : Env
  endEnv : EndEnv

def asInt (n : Nat) : Int := (BitVec.ofNat 32 n).toInt

def Device.freeSketchSpace (d : Device) : Nat :=
  (d.board.fsOffset + 2 ^ 32 - roundUp d.env.sketchSize.toNat) % 2 ^ 32

def Device.spiffsSize (d : Device) : Nat :=
  (d.board.fsEnd + 2 ^ 32 - (0x40200000 + d.board.fsOffset) % 2 ^ 32) % 2 ^ 32

/-- The connection behind the header of the response: what has become of it, what `peekBytes` and
`peek` get, and what the reads yield, with the timeout expired or not. Behind them nothing comes. -/
structure Body where
  seen : Seen
  magic : List UInt8
  peek : UInt8
  rounds : List (List UInt8 × Bool)

/-- The loop of `writeStream`, and the bytes that it has accepted. -/
def readRounds : List (List UInt8 × Bool) → Updater → List UInt8 × Updater
  | [], u => if u.streaming then ([], (u.streamRead [] true).1) else ([], u)
  | round :: rest, u =>
    if u.streaming then
      let r := u.streamRead round.1 round.2
      let more := readRounds rest r.1
      (r.2 ++ more.1, more.2)
    else ([], u)

def writeStream (body : Body) (u : Updater) : List UInt8 × Updater :=
  readRounds body.rounds (u.openStream body.peek)

def nameMd5 (md5 : List UInt8) (u : Updater) : Updater :=
  if md5 = [] then u else u.setMd5 (Web.visible md5)

def Faulty (md5 : List UInt8) : Prop := md5 ≠ [] ∧ (Web.visible md5).length ≠ 32

instance (md5 : List UInt8) : Decidable (Faulty md5) := inferInstanceAs (Decidable (_ ∧ _))

def runUpdate (d : Device) (body : Body) (u : Updater) (size : UInt32) (md5 : List UInt8)
    (command : Nat) (lastError : Int) : Bool × Updater × Int :=
  let begun := u.begin d.board d.env size command
  if begun.1 = false then (false, begun.2, errorCode begun.2.error)
  else if Faulty md5 then (false, begun.2, serverFaultyMd5)
  else
    let w := writeStream body (nameMd5 md5 begun.2)
    if w.1.length ≠ size.toNat then (false, w.2, errorCode w.2.error)
    else
      let e := w.2.end_ d.board d.endEnv false
      if e.1 = false then (false, e.2, errorCode e.2.error) else (true, e.2, lastError)

def checkMagic (d : Device) (body : Body) (spiffs : Bool) : Option Int :=
  let buf := fun i => body.magic.getD i 0
  if spiffs then none
  else if body.magic.length ≠ 4 then some binVerifyHeaderFailed
  else if buf 0 ≠ 0xE9 ∧ buf 0 ≠ 0x1f then some binVerifyHeaderFailed
  else if d.board.flashMapSupport = false ∧ buf 0 = 0xE9 ∧
      magicFlashChipSize ((buf 3 &&& 0xF0) >>> 4) > d.board.chipRealSize then
    some binForWrongFlash
  else none

def xMd5 : List UInt8 := ascii ['x', '-', 'M', 'D', '5']

def headerMd5 (s : HTTPClient) : List UInt8 :=
  ((s.currentHeaders.find? fun entry => entry.1 = xMd5).map Prod.snd).getD []

def imageMd5 (md5Sum : List UInt8) (s : HTTPClient) : List UInt8 :=
  if md5Sum ≠ [] then md5Sum else headerMd5 s

def Device.space (d : Device) (spiffs : Bool) : Int :=
  asInt (if spiffs then d.spiffsSize else d.freeSketchSpace)

def command (spiffs : Bool) : Nat := if spiffs then uFs else uFlash

/-- The size for `runUpdate` -/
def imageSize (s : HTTPClient) : UInt32 := UInt32.ofNat s.size.toNat

def handleResponse (d : Device) (answer : HTTPClient.Run) (body : Body) (md5Sum : List UInt8)
    (spiffs : Bool) (u : Updater) (lastError : Int) : HTTPUpdateResult × Updater × Int :=
  if answer.value ≤ 0 then (.failed, u, answer.value)
  else if answer.value = 200 then
    if answer.state.size > 0 then
      if answer.state.size > d.space spiffs then (.failed, u, tooLessSpace)
      else if (answer.state.observe body.seen).connected = false then
        (.failed, u, errorConnectionLost)
      else
        match checkMagic d body spiffs with
        | some error => (.failed, u, error)
        | none =>
          let r := runUpdate d body u (imageSize answer.state) (imageMd5 md5Sum answer.state)
            (command spiffs) lastError
          (if r.1 then .ok else .failed, r.2)
    else (.failed, u, serverNotReportSize)
  else if answer.value = 304 then (.noUpdates, u, lastError)
  else if answer.value = 404 then (.failed, u, serverFileNotFound)
  else if answer.value = 403 then (.failed, u, serverForbidden)
  else if answer.value = 401 then (.failed, u, serverUnauthorized)
  else (.failed, u, serverWrongHttpCode)

def askServer (encode : Encode) (server : Nat → Exchange) (http : HTTPClient) : HTTPClient.Run :=
  { http with useHTTP10 := true, reuse := false, currentHeaders := [(xMd5, [])] }.sendRequest
    encode server get []

def handleUpdate (d : Device) (encode : Encode) (server : Nat → Exchange) (http : HTTPClient)
    (body : Body) (md5Sum : List UInt8) (spiffs : Bool) (u : Updater) (lastError : Int) :
    HTTPUpdateResult × Updater × Int :=
  handleResponse d (askServer encode server http) body md5Sum spiffs u lastError

section Request

theorem readHeader_ne_zero (lost : Bool) (lines : List (List UInt8)) (encoding : List UInt8)
    (s : HTTPClient) : (HTTPClient.readHeader lost lines encoding s).1 ≠ 0 := by
  induction lines generalizing encoding s with
  | nil =>
    unfold HTTPClient.readHeader
    cases lost with
    | false => exact (by decide : errorReadTimeout ≠ 0)
    | true => exact (by decide : errorConnectionLost ≠ 0)
  | cons line rest ih =>
    unfold HTTPClient.readHeader
    split
    · exact ih _ _
    · split
      · exact ih _ _
      · split
        · unfold HTTPClient.headerEnd
          split
          · exact (by decide : errorEncoding ≠ 0)
          · dsimp only
            split
            · decide
            · omega
        · exact ih _ _

theorem exchange_ne_zero (x : Exchange) (type payload : List UInt8) (s : HTTPClient) :
    (s.exchange x type payload).value ≠ 0 := by
  unfold HTTPClient.exchange
  dsimp only
  split
  · exact (by decide : errorConnectionFailed ≠ 0)
  · split
    · exact (by decide : errorSendHeaderFailed ≠ 0)
    · split
      · exact (by decide : errorSendHeaderFailed ≠ 0)
      · split
        · exact (by decide : errorSendPayloadFailed ≠ 0)
        · unfold HTTPClient.handleHeaderResponse
          split
          · exact readHeader_ne_zero _ _ _ _
          · exact (by decide : errorNotConnected ≠ 0)

theorem sendLoop_ne_zero (encode : Encode) (server : Nat → Exchange) (redirects : Nat)
    (type payload : List UInt8) (s : HTTPClient) :
    (HTTPClient.sendLoop encode server redirects type payload s).value ≠ 0 := by
  induction redirects generalizing type payload s with
  | zero => exact exchange_ne_zero _ _ _ _
  | succ redirects ih =>
    unfold HTTPClient.sendLoop
    dsimp only
    split
    · exact exchange_ne_zero _ _ _ _
    · split
      · exact exchange_ne_zero _ _ _ _
      · exact ih _ _ _

end Request

structure Looping (u : Updater) : Prop where
  cleared : u.error ≠ .ok → u.size = 0 ∧ u.streaming = false
  done : u.error = .ok → u.streaming = false → u.remaining = 0

theorem testStream_looping {u : Updater} (hok : u.error = .ok) : Looping u.testStream := by
  obtain ⟨streaming, hsets, hmore⟩ := testStream_sets u
  rw [hsets]
  refine ⟨fun herror => absurd hok herror, fun _ hstopped => ?_⟩
  refine Classical.byContradiction fun hremains => ?_
  have hstreaming : streaming = false := hstopped
  rw [hstreaming] at hmore
  exact Bool.noConfusion (hmore.mpr hremains)

theorem openStream_looping {u : Updater} (hok : u.error = .ok) (hrunning : 0 < u.size)
    (hstopped : u.streaming = false) (hcommand : u.command = uFlash ∨ u.command = uFs)
    (peek : UInt8) : Looping (u.openStream peek) := by
  unfold Updater.openStream
  rw [if_neg (by simp [Updater.hasError, Updater.isRunning, hok, hrunning])]
  dsimp only
  split
  · rename_i hno
    have herror := not_ok_of_error (verifyHeader_refused u peek hcommand hno)
    refine ⟨fun _ => ⟨rfl, ?_⟩, fun hnone => absurd hnone herror⟩
    unfold Updater.verifyHeader
    split
    · split <;> exact hstopped
    · split <;> exact hstopped
  · rename_i hpassed
    rw [verifyHeader_passed u peek (eq_true_of_ne_false hpassed)]
    exact testStream_looping hok

theorem streamRead_looping {u : Updater} (h : Looping u) (hstreaming : u.streaming = true)
    (bytes : List UInt8) (expired : Bool) : Looping (u.streamRead bytes expired).1 := by
  have hok : u.error = .ok := by
    refine Classical.byContradiction fun herror => ?_
    rw [(h.cleared herror).2] at hstreaming
    cases hstreaming
  unfold Updater.streamRead
  simp only
  split
  · refine ⟨fun _ => ⟨rfl, rfl⟩, fun hnone => ?_⟩
    exact absurd (show UpdateError.stream = .ok from hnone) (by decide)
  · split
    · split
      · rename_i hno
        have hcleared := writeBuffer_cleared _ hno
        exact ⟨fun _ => ⟨hcleared.size, rfl⟩, fun hnone => absurd hnone hcleared.error⟩
      · rename_i hwritten
        have hflushed := (writeBuffer_flushed _ (eq_true_of_ne_false hwritten)).1
        exact testStream_looping (hflushed.same.error.trans hok)
    · exact testStream_looping hok

def reads (rounds : List (List UInt8 × Bool)) : List Action :=
  rounds.map (fun round => .streamRead round.1 round.2) ++ [.streamRead [] true]

theorem reads_stopped (u : Updater) (hstopped : u.streaming = false)
    (rounds : List (List UInt8 × Bool)) :
    (updates.run u (reads rounds)).1 = u ∧ (updates.run u (reads rounds)).2.flatten = [] := by
  have hstep : ∀ bytes expired, updates.step u (.streamRead bytes expired) = (u, []) := by
    intro bytes expired
    exact if_neg (by rw [hstopped]; exact Bool.noConfusion)
  induction rounds with
  | nil =>
    unfold reads
    simp [Machine.run_cons, hstep]
  | cons round rest ih =>
    show (updates.run u (.streamRead round.1 round.2 :: reads rest)).1 = u ∧ _
    unfold reads at *
    simp only [List.map_cons, List.cons_append, Machine.run_cons, hstep, List.flatten_cons,
      List.nil_append]
    exact ih

theorem readRounds_stopped (u : Updater) (hstopped : u.streaming = false)
    (rounds : List (List UInt8 × Bool)) : readRounds rounds u = ([], u) := by
  cases rounds with
  | nil => exact if_neg (by rw [hstopped]; exact Bool.noConfusion)
  | cons round rest => exact if_neg (by rw [hstopped]; exact Bool.noConfusion)

theorem readRounds_run (rounds : List (List UInt8 × Bool)) {u : Updater} (h : Looping u) :
    (readRounds rounds u).1 = (updates.run u (reads rounds)).2.flatten ∧
      (readRounds rounds u).2 = (updates.run u (reads rounds)).1 ∧
      Looping (readRounds rounds u).2 ∧ (readRounds rounds u).2.streaming = false := by
  induction rounds generalizing u with
  | nil =>
    cases hstreaming : u.streaming with
    | false =>
      obtain ⟨hstate, hnone⟩ := reads_stopped u hstreaming []
      rw [readRounds_stopped u hstreaming, hstate, hnone]
      exact ⟨rfl, rfl, h, hstreaming⟩
    | true =>
      have hread : readRounds [] u = ([], (u.streamRead [] true).1) := if_pos hstreaming
      have hstep : updates.step u (.streamRead [] true) = u.streamRead [] true := if_pos hstreaming
      have hlast : (u.streamRead [] true).2 = [] ∧ (u.streamRead [] true).1.streaming = false := by
        unfold Updater.streamRead
        simp
      have hrun : updates.run u (reads []) =
          ((u.streamRead [] true).1, [(u.streamRead [] true).2]) := by
        unfold reads
        rw [List.map_nil, List.nil_append, Machine.run_cons, hstep]
        rfl
      rw [hread, hrun, hlast.1]
      exact ⟨rfl, rfl, streamRead_looping h hstreaming [] true, hlast.2⟩
  | cons round rest ih =>
    cases hstreaming : u.streaming with
    | false =>
      obtain ⟨hstate, hnone⟩ := reads_stopped u hstreaming (round :: rest)
      rw [readRounds_stopped u hstreaming, hstate, hnone]
      exact ⟨rfl, rfl, h, hstreaming⟩
    | true =>
      have hread : readRounds (round :: rest) u =
          ((u.streamRead round.1 round.2).2 ++
              (readRounds rest (u.streamRead round.1 round.2).1).1,
            (readRounds rest (u.streamRead round.1 round.2).1).2) := if_pos hstreaming
      have hstep : updates.step u (.streamRead round.1 round.2) =
          u.streamRead round.1 round.2 := if_pos hstreaming
      have hrun : updates.run u (reads (round :: rest)) =
          ((updates.run (u.streamRead round.1 round.2).1 (reads rest)).1,
            (u.streamRead round.1 round.2).2 ::
              (updates.run (u.streamRead round.1 round.2).1 (reads rest)).2) := by
        show updates.run u (.streamRead round.1 round.2 :: reads rest) = _
        rw [Machine.run_cons, hstep]
      obtain ⟨hbytes, hstate, hmore⟩ := ih (streamRead_looping h hstreaming round.1 round.2)
      rw [hread, hrun]
      refine ⟨?_, hstate, hmore⟩
      rw [hbytes, List.flatten_cons]

section Target

theorem testStream_target (u : Updater) : u.testStream.targetMd5 = u.targetMd5 := by
  obtain ⟨streaming, hsets, -⟩ := testStream_sets u
  rw [hsets]

theorem streamRead_target (u : Updater) (bytes : List UInt8) (expired : Bool) :
    (u.streamRead bytes expired).1.targetMd5 = u.targetMd5 := by
  unfold Updater.streamRead
  simp only
  generalize bytes.take u.bytesToRead = toRead
  have hfill : (u.fill toRead).targetMd5 = u.targetMd5 := rfl
  split
  · rfl
  · rw [← hfill]
    generalize u.fill toRead = v
    split
    · split
      · exact writeBuffer_target v
      · exact (testStream_target v.writeBuffer.2).trans (writeBuffer_target v)
    · exact testStream_target v

theorem readRounds_target (rounds : List (List UInt8 × Bool)) (u : Updater) :
    (readRounds rounds u).2.targetMd5 = u.targetMd5 := by
  induction rounds generalizing u with
  | nil =>
    unfold readRounds
    split
    · exact streamRead_target u [] true
    · rfl
  | cons round rest ih =>
    unfold readRounds
    split
    · exact (ih (u.streamRead round.1 round.2).1).trans (streamRead_target u round.1 round.2)
    · rfl

theorem openStream_target (u : Updater) (peek : UInt8) :
    (u.openStream peek).targetMd5 = u.targetMd5 := by
  have hheader : (u.verifyHeader peek).2.targetMd5 = u.targetMd5 := by
    unfold Updater.verifyHeader
    split
    · split <;> rfl
    · split <;> rfl
  unfold Updater.openStream
  split
  · rfl
  · dsimp only
    split
    · exact hheader
    · exact (testStream_target _).trans hheader

end Target

/-- What `runUpdate` does between `begin` and `end`. -/
def downloads (body : Body) (md5 : List UInt8) : List Action :=
  (if md5 = [] then [] else [.setMd5 (Web.visible md5)]) ++
    (.openStream body.peek :: reads body.rounds)

section Download
variable (d : Device) (body : Body) (u : Updater) (size : UInt32) (md5 : List UInt8)
  (command : Nat)

def download : List UInt8 × Updater :=
  writeStream body (nameMd5 md5 (u.begin d.board d.env size command).2)

variable {d u size command} (hidle : u.streaming = false)
  (hok : (u.begin d.board d.env size command).1 = true)
include hidle hok

theorem begin_ready :
    0 < (u.begin d.board d.env size command).2.size ∧
      (command = uFlash ∨ command = uFs) := by
  obtain ⟨-, hcommand, -, hnoError, -⟩ := begin_sets d.board d.env u size command hok
  obtain ⟨-, ⟨calls, haccounted⟩, -⟩ :=
    (begin_going False d.board d.env u size command hidle hok).2 hnoError
  exact ⟨haccounted.running, hcommand ▸ haccounted.command⟩

theorem download_run :
    (download d body u size md5 command).1 =
        (updates.run (u.begin d.board d.env size command).2 (downloads body md5)).2.flatten ∧
      (download d body u size md5 command).2 =
        (updates.run (u.begin d.board d.env size command).2 (downloads body md5)).1 ∧
      Looping (download d body u size md5 command).2 ∧
      (download d body u size md5 command).2.streaming = false := by
  obtain ⟨hrunning, hcommand⟩ := begin_ready hidle hok
  obtain ⟨-, hsame, -, hnoError, hstreaming⟩ := begin_sets d.board d.env u size command hok
  rw [← hsame] at hcommand
  rw [hidle] at hstreaming
  unfold download writeStream
  generalize (u.begin d.board d.env size command).2 = u₀ at *
  -- The MD5 changes nothing of what the stream depends on.
  have hnamed : (nameMd5 md5 u₀).error = .ok ∧ 0 < (nameMd5 md5 u₀).size ∧
      (nameMd5 md5 u₀).streaming = false ∧
      ((nameMd5 md5 u₀).command = uFlash ∨ (nameMd5 md5 u₀).command = uFs) ∧
      updates.run u₀ (downloads body md5) =
        ((updates.run (nameMd5 md5 u₀) (.openStream body.peek :: reads body.rounds)).1,
          (if md5 = [] then [] else [[]]) ++
            (updates.run (nameMd5 md5 u₀) (.openStream body.peek :: reads body.rounds)).2) := by
    unfold nameMd5 downloads
    by_cases hnone : md5 = []
    · simp only [if_pos hnone, List.nil_append]
      exact ⟨hnoError, hrunning, hstreaming, hcommand, trivial⟩
    · have hset : updates.step u₀ (.setMd5 (Web.visible md5)) =
          (u₀.setMd5 (Web.visible md5), []) := if_neg (by rw [hstreaming]; exact Bool.noConfusion)
      simp only [if_neg hnone, List.singleton_append]
      rw [Machine.run_cons, hset]
      unfold Updater.setMd5
      split
      · exact ⟨hnoError, hrunning, hstreaming, hcommand, rfl⟩
      · exact ⟨hnoError, hrunning, hstreaming, hcommand, rfl⟩
  obtain ⟨hnoError', hrunning', hstreaming', hcommand', hrun⟩ := hnamed
  have hopen : updates.step (nameMd5 md5 u₀) (.openStream body.peek) =
      ((nameMd5 md5 u₀).openStream body.peek, []) :=
    if_neg (by rw [hstreaming']; exact Bool.noConfusion)
  obtain ⟨hbytes, hstate, hlooping, hstopped⟩ := readRounds_run body.rounds
    (openStream_looping hnoError' hrunning' hstreaming' hcommand' body.peek)
  rw [hrun, Machine.run_cons, hopen]
  refine ⟨?_, hstate, hlooping, hstopped⟩
  rw [hbytes]
  by_cases hnone : md5 = []
  · simp [hnone]
  · simp [hnone]

theorem download_going :
    Going False (u.begin d.board d.env size command).2 (download d body u size md5 command).2
      (download d body u size md5 command).1 := by
  obtain ⟨hbytes, hstate, -, -⟩ := download_run body md5 hidle hok
  rw [hbytes, hstate]
  exact updates_run d.board d.env u size command hidle hok (downloads body md5) False.elim

theorem download_whole (hnoError : (download d body u size md5 command).2.error = .ok) :
    (download d body u size md5 command).1.length = size.toNat ∧
      (download d body u size md5 command).2.isFinished = true ∧
      (download d body u size md5 command).2.progress =
        (download d body u size md5 command).1.length ∧
      (download d body u size md5 command).2.size ≠ 0 ∧
      (download d body u size md5 command).2.progress ≠ 0 := by
  obtain ⟨-, -, hlooping, hstopped⟩ := download_run body md5 hidle hok
  obtain ⟨hsame, ⟨calls, haccounted⟩, -⟩ := download_going body md5 hidle hok hnoError
  have hsize := (begin_going False d.board d.env u size command hidle hok).1
  rw [← hsame.size] at hsize
  have hdone := (remaining_eq_zero haccounted.staged.progress_le haccounted.small).mp
    (hlooping.done hnoError hstopped)
  have hwithin := haccounted.within (.inl hstopped)
  have hlength := haccounted.staged.length
  have hreached := haccounted.staged.reached
  have hrunning := haccounted.running
  refine ⟨by omega, decide_eq_true ?_, by omega, by omega, by omega⟩
  unfold Updater.progress at hdone
  omega

end Download

section Update
variable (d : Device) (body : Body) {u : Updater} (size : UInt32) (md5 : List UInt8)
  (command : Nat) (lastError : Int)

theorem runUpdate_failed (hidle : u.streaming = false)
    (hno : (runUpdate d body u size md5 command lastError).1 = false) :
    ((runUpdate d body u size md5 command lastError).2.1.isRunning = false ∧
        (runUpdate d body u size md5 command lastError).2.2 ≠ 0) ↔
      ¬((u.begin d.board d.env size command).1 = true ∧ Faulty md5) := by
  unfold runUpdate at hno ⊢
  dsimp only at hno ⊢
  split
  · rename_i hrefused
    have hcleared := begin_cleared d.board d.env u size command hrefused
    refine iff_of_true ⟨hcleared.stopped, errorCode_ne_zero hcleared.error⟩ fun h => ?_
    rw [hrefused] at h
    cases h.1
  · rename_i hbegun
    have hok := eq_true_of_ne_false hbegun
    rw [if_neg hbegun] at hno
    split
    · rename_i hfaulty
      refine iff_of_false (fun h => ?_) (not_not_intro ⟨hok, hfaulty⟩)
      have hrunning := (begin_ready hidle hok).1
      exact absurd (decide_eq_true hrunning) (ne_true_of_eq_false h.1)
    · rename_i hproper
      rw [if_neg hproper] at hno
      refine iff_of_true ?_ fun h => hproper h.2
      have hlooping := (download_run body md5 hidle hok).2.2.1
      have hwhole := download_whole body md5 hidle hok
      have hkept := download_going body md5 hidle hok
      unfold download at hlooping hwhole hkept
      generalize writeStream body (nameMd5 md5 (u.begin d.board d.env size command).2) = w at *
      split
      · rename_i hshort
        have herror : w.2.error ≠ .ok := fun hnoError => hshort (hwhole hnoError).1
        refine ⟨?_, errorCode_ne_zero herror⟩
        unfold Updater.isRunning
        rw [(hlooping.cleared herror).1]
        rfl
      · rename_i hlong
        rw [if_neg hlong] at hno
        split
        · rename_i hfail
          refine ⟨?_, errorCode_ne_zero ?_⟩
          · unfold Updater.isRunning
            rw [end_size]
            rfl
          · by_cases hnoError : w.2.error = .ok
            · obtain ⟨-, ⟨calls, haccounted⟩, -⟩ := hkept hnoError
              exact end_error d.board d.endEnv w.2 haccounted.command
                (fun _ => ⟨(hwhole hnoError).2.1, (hwhole hnoError).2.2.2.1⟩) hfail
            · have hstopped := (hlooping.cleared hnoError).1
              unfold Updater.end_
              rw [if_pos hstopped]
              exact hnoError
        · rename_i hended
          rw [if_neg hended] at hno
          cases hno

theorem runUpdate_ok (hidle : u.streaming = false)
    (hyes : (runUpdate d body u size md5 command lastError).1 = true) :
    (download d body u size md5 command).1.length = size.toNat ∧
      (∀ i byte, (download d body u size md5 command).1[i]? = some byte →
        (runUpdate d body u size md5 command lastError).2.1.sdk.flash
            ((u.begin d.board d.env size command).2.startAddress + i) = byte ∨
          (i = flashModeOffset ∧ command = uFlash)) ∧
      (u.verifier = none → md5 ≠ [] → ∃ chipMode,
        ModeFound ((download d body u size md5 command).2.since
            (u.begin d.board d.env size command).2.sdk) chipMode
          (headerMode (u.begin d.board d.env size command).2.sdk
            (u.begin d.board d.env size command).2.startAddress) ∧
        (Web.visible md5).map toLower = (d.board.md5 (restored command chipMode
          (download d body u size md5 command).1)).map toLower) := by
  unfold runUpdate at hyes ⊢
  dsimp only at hyes ⊢
  have hbegun : ¬(u.begin d.board d.env size command).1 = false := by
    intro hrefused
    rw [if_pos hrefused] at hyes
    cases hyes
  rw [if_neg hbegun] at hyes ⊢
  have hok := eq_true_of_ne_false hbegun
  have hproper : ¬Faulty md5 := by
    intro hfaulty
    rw [if_pos hfaulty] at hyes
    cases hyes
  rw [if_neg hproper] at hyes ⊢
  have hrun := download_run body md5 hidle hok
  have hwhole := download_whole body md5 hidle hok
  have hgoing := download_going body md5 hidle hok
  obtain ⟨-, hcommand, hverifier, -, -⟩ := begin_sets d.board d.env u size command hok
  have htarget : (download d body u size md5 command).2.targetMd5 =
      (nameMd5 md5 (u.begin d.board d.env size command).2).targetMd5 :=
    (readRounds_target _ _).trans (openStream_target _ _)
  have hsame : writeStream body (nameMd5 md5 (u.begin d.board d.env size command).2) =
      download d body u size md5 command := rfl
  rw [hsame] at hyes ⊢
  generalize download d body u size md5 command = w at *
  have hlong : ¬w.1.length ≠ size.toNat := by
    intro hshort
    rw [if_pos hshort] at hyes
    cases hyes
  rw [if_neg hlong] at hyes ⊢
  have hended : ¬(w.2.end_ d.board d.endEnv false).1 = false := by
    intro hfail
    rw [if_pos hfail] at hyes
    cases hyes
  rw [if_neg hended]
  have hend := eq_true_of_ne_false hended
  have hdone := end_ended d.board d.endEnv w.2 false hend
  obtain ⟨hlength, hfinished, hprogress, hsize, hstarted⟩ := hwhole hdone.noError
  obtain ⟨hkept, ⟨calls, haccounted⟩, -⟩ := hgoing hdone.noError
  refine ⟨hlength, fun i byte hbyte => ?_, fun hnone hgiven => ?_⟩
  · have hi : i < w.2.progress := by
      have hinside := (List.getElem?_eq_some_iff.mp hbyte).1
      omega
    have hflash : (w.2.end_ d.board d.endEnv false).2.sdk.flash = w.2.sdk.flash := hdone.reads.flash
    rw [hflash, ← hkept.start]
    rcases haccounted.staged.image i hi with hplain | hchanged
    · rw [hbyte] at hplain
      exact .inl (Option.some.inj hplain).symm
    · refine .inr ⟨hchanged.1, ?_⟩
      rw [← hcommand, ← hkept.command]
      exact hchanged.2.1
  · have hnoVerifier : w.2.verifier = none := (hkept.verifier.trans hverifier).trans hnone
    have hnamed : w.2.targetMd5 = Web.visible md5 := by
      rw [htarget]
      unfold nameMd5 Updater.setMd5
      have hsized : (Web.visible md5).length = 32 :=
        Classical.byContradiction fun hother => hproper ⟨hgiven, hother⟩
      rw [if_neg hgiven, if_neg (not_not_intro hsized)]
    have hnonempty : w.2.targetMd5 ≠ [] := by
      intro hempty
      refine hproper ⟨hgiven, ?_⟩
      rw [← hnamed, hempty]
      decide
    have hmatch := ((end_target d.board d.endEnv w.2 false hsize hstarted hdone.noError
      (.inl hfinished) hnoVerifier hnonempty).1.mp hend).1
    obtain ⟨chipMode, hfound, hmd5⟩ := haccounted.fed hnoVerifier
    rw [hkept.start] at hfound
    refine ⟨chipMode, hfound, ?_⟩
    rw [← hnamed]
    refine hmatch.trans ?_
    have hhashed : (w.2.flush false).md5 = restored command chipMode w.1 := by
      refine hmd5.trans ?_
      rw [hkept.command, hcommand, hprogress]
      exact List.take_of_length_le (Nat.le_of_eq length_restored)
    rw [hhashed]

end Update

section Response
variable (d : Device) (answer : HTTPClient.Run) (body : Body) (md5Sum : List UInt8) (spiffs : Bool)
  (u : Updater) (lastError : Int)

/-- The response passes the checks in front of `runUpdate`. -/
def Starts : Prop :=
  answer.value = 200 ∧ 0 < answer.state.size ∧ answer.state.size ≤ d.space spiffs ∧
    (answer.state.observe body.seen).connected = true ∧ checkMagic d body spiffs = none

theorem handleResponse_starts (h : Starts d answer body spiffs) :
    handleResponse d answer body md5Sum spiffs u lastError =
      let r := runUpdate d body u (imageSize answer.state) (imageMd5 md5Sum answer.state)
        (command spiffs) lastError
      (if r.1 then .ok else .failed, r.2) := by
  obtain ⟨hcode, hsize, hspace, hconnected, hmagic⟩ := h
  unfold handleResponse
  rw [if_neg (by rw [hcode]; decide), if_pos hcode, if_pos hsize,
    if_neg (Int.not_lt.mpr hspace), if_neg (by rw [hconnected]; exact Bool.noConfusion), hmagic]

theorem checkMagic_ne_zero {error : Int} (h : checkMagic d body spiffs = some error) :
    error ≠ 0 := by
  unfold checkMagic at h
  dsimp only at h
  split at h
  · cases h
  · split at h
    · cases h
      decide
    · split at h
      · cases h
        decide
      · split at h
        · cases h
          decide
        · cases h

theorem handleResponse_early (hanswer : answer.value ≠ 0) (h : ¬Starts d answer body spiffs) :
    (handleResponse d answer body md5Sum spiffs u lastError).2.1 = u ∧
      (handleResponse d answer body md5Sum spiffs u lastError).1 ≠ .ok ∧
      ((handleResponse d answer body md5Sum spiffs u lastError).1 = .failed →
        (handleResponse d answer body md5Sum spiffs u lastError).2.2 ≠ 0) := by
  have hrefused : ∀ error : Int, error ≠ 0 →
      ((HTTPUpdateResult.failed, u, error).2.1 = u ∧
        (HTTPUpdateResult.failed, u, error).1 ≠ .ok ∧
        ((HTTPUpdateResult.failed, u, error).1 = .failed →
          (HTTPUpdateResult.failed, u, error).2.2 ≠ 0)) :=
    fun error herror => ⟨rfl, by simp, fun _ => herror⟩
  unfold handleResponse
  split
  · exact hrefused _ hanswer
  · split
    · rename_i hcode
      split
      · rename_i hsize
        split
        · exact hrefused _ (by decide)
        · rename_i hspace
          split
          · exact hrefused _ (by decide)
          · rename_i hconnected
            split
            · rename_i error hmagic
              exact hrefused _ (checkMagic_ne_zero d body spiffs hmagic)
            · rename_i hmagic
              exact absurd ⟨hcode, hsize, Int.not_lt.mp hspace, eq_true_of_ne_false hconnected,
                hmagic⟩ h
      · exact hrefused _ (by decide)
    · split
      · exact ⟨rfl, by simp, fun hfailed => by simp at hfailed⟩
      · split
        · exact hrefused _ (by decide)
        · split
          · exact hrefused _ (by decide)
          · split
            · exact hrefused _ (by decide)
            · exact hrefused _ (by decide)

theorem imageSize_toNat (h : Starts d answer body spiffs) :
    ((imageSize answer.state).toNat : Int) = answer.state.size := by
  obtain ⟨-, hsize, hspace, -, -⟩ := h
  have hsmall : d.space spiffs < 2 ^ 31 := BitVec.toInt_lt
  unfold imageSize
  rw [UInt32.toNat_ofNat']
  omega

end Response

/-- For every response: an update that fails leaves the updater stopped and an error exactly if it
was stopped before, where it does not come to `runUpdate`, or else if it is not left with an MD5
that `setMD5` refuses. An update that succeeds has staged as many bytes as were announced, and with
an MD5 and without a verifier it is the MD5 of them, if the flash mode is kept: that of the header
of the chip, or an unknown one where the header could not be read. -/
theorem handleUpdate_exact (d : Device) (encode : Encode) (server : Nat → Exchange)
    (http : HTTPClient) (body : Body) (md5Sum : List UInt8) (spiffs : Bool) (u : Updater)
    (lastError : Int) (hidle : u.streaming = false) :
    let answer := askServer encode server http
    let md5 := imageMd5 md5Sum answer.state
    let begun := u.begin d.board d.env (imageSize answer.state) (command spiffs)
    let r := handleUpdate d encode server http body md5Sum spiffs u lastError
    (r.1 = .failed → (r.2.1.isRunning = false ∧ r.2.2 ≠ 0 ↔
      (Starts d answer body spiffs → ¬(begun.1 = true ∧ Faulty md5)) ∧
        (¬Starts d answer body spiffs → u.isRunning = false))) ∧
    (r.1 = .ok → ∃ bytes,
      bytes = (writeStream body (nameMd5 md5 begun.2)).1 ∧
      answer.state.size = (bytes.length : Int) ∧
      (∀ i byte, bytes[i]? = some byte →
        r.2.1.sdk.flash (begun.2.startAddress + i) = byte ∨
          (i = flashModeOffset ∧ spiffs = false)) ∧
      (u.verifier = none → md5 ≠ [] → ∃ chipMode,
        ModeFound ((writeStream body (nameMd5 md5 begun.2)).2.since begun.2.sdk) chipMode
          (headerMode begun.2.sdk begun.2.startAddress) ∧
        (Web.visible md5).map toLower =
          (d.board.md5 (restored (command spiffs) chipMode bytes)).map toLower ∧
        (restored (command spiffs) chipMode bytes = bytes ↔
          KeepsMode (command spiffs) chipMode bytes))) := by
  intro answer md5 begun r
  have hanswer : answer.value ≠ 0 := sendLoop_ne_zero encode server _ get [] _
  by_cases hstarts : Starts d answer body spiffs
  · have hr : r = _ := handleResponse_starts d answer body md5Sum spiffs u lastError hstarts
    rw [hr]
    dsimp only
    constructor
    · intro hfailed
      have hno : (runUpdate d body u (imageSize answer.state) md5 (command spiffs)
          lastError).1 = false := by
        cases hresult : (runUpdate d body u (imageSize answer.state) md5 (command spiffs)
          lastError).1 with
        | false => rfl
        | true =>
          rw [if_pos hresult] at hfailed
          cases hfailed
      refine (runUpdate_failed d body _ md5 _ lastError hidle hno).trans ?_
      exact ⟨fun h => ⟨fun _ => h, fun hnot => absurd hstarts hnot⟩, fun h => h.1 hstarts⟩
    · intro hok
      have hyes : (runUpdate d body u (imageSize answer.state) md5 (command spiffs)
          lastError).1 = true := by
        cases hresult : (runUpdate d body u (imageSize answer.state) md5 (command spiffs)
          lastError).1 with
        | true => rfl
        | false =>
          rw [if_neg (by rw [hresult]; exact Bool.noConfusion)] at hok
          cases hok
      obtain ⟨hlength, hstaged, hmd5⟩ := runUpdate_ok d body _ md5 _ lastError hidle hyes
      refine ⟨_, rfl, ?_, fun i byte hbyte => ?_, fun hverifier hgiven => ?_⟩
      · rw [← imageSize_toNat d answer body spiffs hstarts]
        exact congrArg Int.ofNat hlength.symm
      · refine (hstaged i byte hbyte).imp_right fun h => ⟨h.1, ?_⟩
        cases spiffs with
        | false => rfl
        | true => exact absurd h.2 (by decide)
      · obtain ⟨chipMode, hfound, hmatch⟩ := hmd5 hverifier hgiven
        exact ⟨chipMode, hfound, hmatch, restored_eq _ _ _⟩
  · obtain ⟨hsame, hnot, herror⟩ :=
      handleResponse_early d answer body md5Sum spiffs u lastError hanswer hstarts
    constructor
    · intro hfailed
      have hstate : r.2.1 = u := hsame
      rw [hstate]
      exact ⟨fun h => ⟨fun hyes => absurd hyes hstarts, fun _ => h.1⟩,
        fun h => ⟨h.2 hstarts, herror hfailed⟩⟩
    · exact fun hok => absurd hok hnot

def updateClient : HTTPClient := HTTPClient.new.beginHost ⟨.given 0, false⟩ [104] 80 [47] false

def sampleDevice : Device := ⟨sampleBoard, sampleEnv, ⟨[], none⟩⟩

def sampleBody : Body := ⟨⟨false, true⟩, [0xE9, 1, 2, 0x40], 0xE9, [([0xE9, 1, 2, 0x40], false)]⟩

/-- The MD5 of `sampleBody` -/
def sampleMd5 : List UInt8 :=
  ascii ['1', 'd', '0', 'e', 'c', '2', '9', '9', 'e', 'c', 'b', '1', '5', '4', 'f', 'c',
    '5', 'e', '3', 'c', '7', '5', '2', '3', '0', '2', 'd', '4', '1', '9', 'c', '1']

def hashing : Device := { sampleDevice with board := { sampleBoard with md5 := fun _ => sampleMd5 } }

def goodMd5 : Exchange :=
  answering [status ['2', '0', '0'], contentLength ++ ascii [':', ' ', '4', '\r'],
    xMd5 ++ ascii [':', ' '] ++ sampleMd5 ++ [13], [13]]

theorem handleUpdate_exact_staged :
    let answer := askServer id (fun _ => goodMd5) updateClient
    let begun := stopped.begin hashing.board hashing.env (imageSize answer.state) (command false)
    let w := writeStream sampleBody (nameMd5 sampleMd5 begun.2)
    answer.state.size = (w.1.length : Int) ∧ ∃ chipMode,
      ModeFound (w.2.since begun.2.sdk) chipMode
        (headerMode begun.2.sdk begun.2.startAddress) ∧
      KeepsMode (command false) chipMode w.1 := by
  dsimp only
  obtain ⟨bytes, hbytes, hlength, -, hmd5⟩ := (handleUpdate_exact hashing id (fun _ => goodMd5)
    updateClient sampleBody [] false stopped 0 rfl).2 (by decide +kernel)
  have hgiven : imageMd5 [] (askServer id (fun _ => goodMd5) updateClient).state = sampleMd5 := by
    decide +kernel
  rw [hgiven] at hbytes hmd5
  obtain ⟨chipMode, hfound, -, -⟩ := hmd5 rfl (by decide)
  rw [← hbytes]
  refine ⟨hlength, chipMode, hfound, .inr (.inr (.inr fun byte hbyte => ?_))⟩
  have hsecond : bytes[flashModeOffset]? = some 2 := by
    rw [hbytes]
    decide +kernel
  rw [hsecond] at hbyte
  cases hbyte
  exact .inl (by decide)

def shortMd5 : Exchange :=
  answering [status ['2', '0', '0'], contentLength ++ ascii [':', ' ', '4', '\r'],
    xMd5 ++ ascii [':', ' ', 'a', 'b', 'c', '\r'], [13]]

theorem shortMd5_running :
    let r := handleUpdate sampleDevice id (fun _ => shortMd5) updateClient sampleBody [] false
      stopped 0
    let next := handleUpdate sampleDevice id
      (fun _ => answering
        [status ['2', '0', '0'], contentLength ++ ascii [':', ' ', '4', '\r'], [13]])
      updateClient sampleBody [] false r.2.1 r.2.2
    r.1 = .failed ∧ r.2.1.isRunning = true ∧ next.1 = .failed ∧
      next.2.2 = errorCode .runningAlready := by
  decide +kernel

end Esp8266.HttpUpdate
