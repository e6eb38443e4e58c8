import KChat.Backup.Callbacks

/-!
# The bindings for Node.js: two threads

The core runs on a thread of its own. What it reads and writes goes through two functions of the
caller, which run on the JavaScript thread and promise an answer: a call is queued, its promise is
settled at some time, and the worker looks every 20 ms whether that has happened. Between any two
steps of the worker the JavaScript thread does whatever it likes.

* `JsEvent`: what the JavaScript thread does; `ThreadEvent`: the record of both threads.
* `Threads`: the state that they share; `Threads.happens`, `meanwhile`: the JavaScript thread's
  turn.
* `waitForCallback`: the worker's loop, which gives up waiting after `patience` rounds;
  `SourceAdapter`, `SinkAdapter`.
* `openBackupObjectV1`, `sealBackupObjectV1`: what the bindings export.
-/

namespace KChat.Backup.Napi

open Lib

/-! ## The JavaScript thread -/

inductive JsFunction
  | read | write
  deriving DecidableEq, Repr

inductive JsCallback
  | read (maximum : ℕ)
  | write (bytes : Bytes)
  deriving DecidableEq, Repr

namespace JsCallback

def function : JsCallback → JsFunction
  | read _ => .read
  | write _ => .write

def size : JsCallback → ℕ
  | read maximum => maximum
  | write bytes => bytes.length

/-- What the handler of a promise that is fulfilled sends to the worker; a write sends nothing. -/
def settled : JsCallback → Bytes → Except BackupErrorCode Bytes
  | read maximum, value => if maximum < value.length then .error .invalidState else .ok value
  | write _, _ => .ok []

end JsCallback

/-- What happens to a call: its function is called, and gives a promise that handlers can be
attached to, or not; the promise is settled; the handlers are dropped. -/
inductive CallEvent
  | start (attached : Bool)
  | resolve (value : Bytes)
  | reject
  | drop
  deriving DecidableEq, Repr

inductive JsEvent
  | cancel
  | abort (function : JsFunction)
  | on (call : ℕ) (event : CallEvent)
  deriving DecidableEq, Repr

inductive CallStage
  | queued | started | dropped
  deriving DecidableEq, Repr

/-- A call, and the channel to the worker, which holds one answer. -/
structure JsCall where
  callback : JsCallback
  stage : CallStage
  buffer : Option (Except BackupErrorCode Bytes)

namespace JsCall

/-- A second answer is ignored. -/
def trySend (c : JsCall) (result : Except BackupErrorCode Bytes) : JsCall :=
  if c.buffer = none then { c with buffer := some result } else c

/-- The call after an event, if that can happen to it. -/
def after (c : JsCall) : CallEvent → Option JsCall
  | .start attached =>
    if c.stage = .queued then
      let c := { c with stage := .started }
      some (if attached then c else c.trySend (.error .ioError))
    else none
  | .resolve value =>
    if c.stage = .started then some (c.trySend (c.callback.settled value)) else none
  | .reject => if c.stage = .started then some (c.trySend (.error .ioError)) else none
  | .drop => some { c with stage := .dropped }

end JsCall

/-! ## Both threads -/

inductive ThreadEvent
  | js (event : JsEvent)
  | looked (cancelled : Bool)
  | called (call : ℕ) (callback : JsCallback)
  | refused (callback : JsCallback)
  | closed (call : ℕ) (answer : Bool)
  | received (call : ℕ) (result : Except BackupErrorCode Bytes)
  | timedOut (call : ℕ)
  | disconnected (call : ℕ)

/-- What the threads share. Beside it: whether the worker waits for ever, and the record. -/
structure Threads where
  cancelled : Bool
  aborted : JsFunction → Bool
  calls : List JsCall
  hung : Bool
  log : List ThreadEvent

namespace Threads

def new : Threads where
  cancelled := false
  aborted _ := false
  calls := []
  hung := false
  log := []

def note (t : Threads) (event : ThreadEvent) : Threads := { t with log := t.log ++ [event] }

/-- One step of the JavaScript thread; what cannot happen does not. -/
def happens (t : Threads) : JsEvent → Threads
  | .cancel => { t with cancelled := true }.note (.js .cancel)
  | .abort function =>
    { t with aborted := fun f => t.aborted f || f == function }.note (.js (.abort function))
  | .on call event =>
    match t.calls[call]?.bind fun c => c.after event with
    | some c => { t with calls := t.calls.set call c }.note (.js (.on call event))
    | none => t

def enqueue (t : Threads) (callback : JsCallback) : Threads :=
  { t with calls := t.calls ++ [{ callback := callback, stage := .queued, buffer := none }] }

def queueFull (t : Threads) (function : JsFunction) : Bool :=
  t.calls.any fun c => c.stage == .queued && c.callback.function == function

end Threads

/-- The JavaScript thread: what it does next, after all that has happened. -/
abbrev Javascript : Type := List ThreadEvent → List JsEvent

def meanwhile (js : Javascript) (t : Threads) : Threads := (js t.log).foldl Threads.happens t

/-! ## The worker -/

section worker

variable (js : Javascript) (patience : ℕ)

abbrev Step (α : Type) : Type := EStateM BackupErrorCode Threads α

def lookCancelled : Step Bool := fun t =>
  let t := meanwhile js t
  .ok t.cancelled (t.note (.looked t.cancelled))

def lookClosed (call : ℕ) (callback : JsCallback) : Step Bool := fun t =>
  let t := meanwhile js t
  .ok (t.aborted callback.function) (t.note (.closed call (t.aborted callback.function)))

/-- `call_with_return_value`: the call is queued, unless its function is aborted or its queue is
full. -/
def callFunction (callback : JsCallback) : Step ℕ := fun t =>
  let t := meanwhile js t
  if t.aborted callback.function || t.queueFull callback.function then
    .error .ioError (t.note (.refused callback))
  else
    let call := t.calls.length
    .ok call ((t.enqueue callback).note (.called call callback))

inductive Reply
  | answer (result : Except BackupErrorCode Bytes)
  | timeout
  | disconnected

/-- `recv_timeout`: the JavaScript thread's turn lasts 20 ms. -/
def receive (call : ℕ) : Step Reply := fun t =>
  let t := meanwhile js t
  match t.calls[call]? with
  | some { buffer := some result, .. } => .ok (.answer result) (t.note (.received call result))
  | some { stage := .dropped, .. } => .ok .disconnected (t.note (.disconnected call))
  | _ => .ok .timeout (t.note (.timedOut call))

/-- The loop of `wait_for_callback`, for a worker that waits for ever after `patience` rounds. -/
def waitForCallback (call : ℕ) (callback : JsCallback) : ℕ → Step Bytes
  | 0 => do
    modify fun t => { t with hung := true }
    throw .ioError
  | patience + 1 => do
    if ← lookCancelled js then
      throw .cancelled
    if ← lookClosed js call callback then
      throw .ioError
    match ← receive js call with
    | .answer result =>
      if ← lookCancelled js then
        throw .cancelled
      ofResult result
    | .timeout => waitForCallback call callback patience
    | .disconnected => throw .ioError

def callAndWait (callback : JsCallback) : Step Bytes := do
  let call ← callFunction js callback
  waitForCallback js call callback patience

/-- A worker that waits for ever does nothing more. -/
def unlessHung {α : Type} (x : Step α) : Step α := do
  if (← get).hung then
    throw .ioError
  x

def SourceAdapter : BackupByteSource Threads where
  readChunk capacity := unlessHung do
    if ← lookCancelled js then
      throw .cancelled
    callAndWait js patience (.read (min capacity maxIoChunkBytesV1))
  isCancelled t :=
    if t.hung then (true, t)
    else
      let t := meanwhile js t
      (t.cancelled, t.note (.looked t.cancelled))

def SinkAdapter : BackupByteSink Threads where
  writeChunk bytes := unlessHung do
    if ← lookCancelled js then
      throw .cancelled
    if maxIoChunkBytesV1 < bytes.length then
      throw .invalidState
    let _ ← callAndWait js patience (.write bytes)

/-! ## What the bindings export -/

/-- `adapters`, on the JavaScript thread: a token that is cancelled already is refused. -/
def adapters (cancelled : Bool) : Except BackupErrorCode Threads :=
  if cancelled then .error .cancelled else .ok .new

/-- What the promise of a task is settled with, if the worker does not wait for ever; and the
record. -/
structure TaskEnd (α : Type) where
  settled : Option (Except BackupErrorCode α)
  log : List ThreadEvent

def compute {α : Type} (x : Call Threads α) (t : Threads) : TaskEnd α :=
  let r := x.run { foreign := t, delivered := [] }
  { settled := if (final r).foreign.hung then none else some (outcome r)
    log := (final r).foreign.log }

/-- A task for a context that was not disposed of. -/
def spawnTask {α : Type} (context : Option BackupObjectContextV1) (cancelled : Bool)
    (x : BackupObjectContextV1 → Call Threads α) : Except BackupErrorCode (TaskEnd α) := do
  let context ← context.elim (.error .invalidState) .ok
  let t ← adapters cancelled
  return compute (x context) t

variable {δ κ : Type}

def openBackupObjectV1 (A : StreamAead) (R : RawDecoder δ) (context : Option BackupObjectContextV1)
    (cancelled : Bool) : Except BackupErrorCode (TaskEnd Unit) :=
  spawnTask context cancelled
    (openObjectV1 A R (SourceAdapter js patience) (SinkAdapter js patience))

def sealBackupObjectV1 (A : StreamAead) (C : Compressor κ) (sha256 : Bytes → Bytes)
    (random : Option NoncePrefix) (context : Option BackupObjectContextV1) (cancelled : Bool) :
    Except BackupErrorCode (TaskEnd BackupObjectMetadata) :=
  spawnTask context cancelled fun context => do
    let descriptor ← sealObjectV1 A C sha256 (SourceAdapter js patience) (SinkAdapter js patience)
      context random
    return .ofDescriptor descriptor

end worker

end KChat.Backup.Napi
