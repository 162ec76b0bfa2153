import Argus.Foundations.Program
import Argus.Labels
import Argus.Strings
import Argus.Time

/-!
# The agent's client and its spool

`Client.sendBatch` of package `agent` as a program over what it asks of its surroundings: the
contexts, the clock, the hub and the files of the spool. Every answer is the environment's.
A batch that the hub does not take for the moment goes into the spool, a directory with a file
for each batch, and every later call sends the batches of the spool first.

A file is known by the number in its name: names of sixteen digits sort like their numbers, and
a file with a longer name is never listed again.
-/

namespace Argus

open Foundations

/-! ### Answers -/

/-- The context of a post: that of the caller, or the one of a replay, which has a time-out of
its own and is never cancelled. -/
inductive Ctx
  | caller
  | replay
  deriving DecidableEq

/-- `ctx.Err()` of a context that is done. -/
inductive CtxErr
  | canceled
  | deadlineExceeded
  deriving DecidableEq

/-- The error of an attempt: a cancelled context, a `hubStatusError`, or any other failure of
the transport, a time-out among them. -/
inductive PostErr
  | canceled
  | status (code : ℕ)
  | transport
  deriving DecidableEq

/-- The error that a finished context is. -/
def CtxErr.toPostErr : CtxErr → PostErr
  | canceled => .canceled
  | deadlineExceeded => .transport

/-- `retryable`. -/
def retryable : Option PostErr → Bool
  | none => false
  | some .canceled => false
  | some (.status code) => code == 429 || decide (code ≥ 500)
  | some .transport => true

/-- A batch: the endpoint, the id and the JSON value of the body. -/
structure Batch where
  path : String
  batchID : String
  body : Json

/-- `spoolItem`. -/
structure SpoolItem extends Batch where
  queuedAt : Time

/-- A file of the spool: its size, and the item that its content decodes to, if it does. -/
structure SpoolFile where
  size : ℕ
  item : Option SpoolItem

/-! ### Operations -/

/-- What the client asks for. -/
inductive AgentOp
  /-- `ctx.Err()`. -/
  | ctxErr (c : Ctx)
  /-- `retryWait` before an attempt. -/
  | wait (c : Ctx)
  /-- The attempt of this number. -/
  | postOnce (c : Ctx) (attempt : ℕ) (b : Batch)
  /-- `time.Now()`. -/
  | now
  /-- `names`: the files of the spool, oldest first. -/
  | names
  /-- `os.Stat` of a file. -/
  | stat (n : ℕ)
  /-- `os.ReadFile`, and what the content decodes to. -/
  | readFile (n : ℕ)
  /-- `os.Rename` to a name that is not listed. -/
  | renameBad (n : ℕ)
  /-- `Remove`. -/
  | remove (n : ℕ)
  /-- `os.WriteFile` of a temporary file. -/
  | writeFile (n : ℕ) (f : SpoolFile)
  /-- `os.Rename` of the temporary file to its name. -/
  | rename (n : ℕ) (f : SpoolFile)
  /-- A call of `sendBatch` begins: its lock is taken. -/
  | start (id : String)
  /-- A loop that is cut off here. -/
  | cutOff

/-- The answers: errors of files are `none` or `false`. -/
abbrev AgentOp.Answer : AgentOp → Type
  | ctxErr _ => Option CtxErr
  | wait _ => Bool
  | postOnce .. => Option PostErr
  | now => Time
  | names => Option (List ℕ)
  | stat _ => Option ℕ
  | readFile _ => Option (Option SpoolItem)
  | renameBad _ => Bool
  | remove _ => Bool
  | writeFile .. => Bool
  | rename .. => Bool
  | start _ => Unit
  | cutOff => Empty

/-- A program of the agent. -/
abbrev AgentM (α : Type) : Type := Program AgentOp AgentOp.Answer α

/-- `ctx.Err()`. -/
abbrev ctxErr (c : Ctx) : AgentM (Option CtxErr) := .call (.ctxErr c) .ret

/-- `c.retryWait`, or `waitContext`: whether the wait came to its end. -/
abbrev retryWait (c : Ctx) : AgentM Bool := .call (.wait c) .ret

/-- `c.postOnce`. -/
abbrev postOnce (c : Ctx) (attempt : ℕ) (b : Batch) : AgentM (Option PostErr) :=
  .call (.postOnce c attempt b) .ret

/-- `time.Now()`. -/
abbrev timeNow : AgentM Time := .call .now .ret

/-- `s.names()`. -/
abbrev spoolNames : AgentM (Option (List ℕ)) := .call .names .ret

/-- `os.Stat`. -/
abbrev statFile (n : ℕ) : AgentM (Option ℕ) := .call (.stat n) .ret

/-- `os.ReadFile` and `json.Unmarshal`. -/
abbrev readFile (n : ℕ) : AgentM (Option (Option SpoolItem)) := .call (.readFile n) .ret

/-- `os.Rename` to a name with the ending `.bad`. -/
abbrev renameBad (n : ℕ) : AgentM Bool := .call (.renameBad n) .ret

/-- `s.Remove`. -/
abbrev removeFile (n : ℕ) : AgentM Bool := .call (.remove n) .ret

/-- `os.WriteFile`. -/
abbrev writeFile (n : ℕ) (f : SpoolFile) : AgentM Bool := .call (.writeFile n f) .ret

/-- `os.Rename` to the final name. -/
abbrev renameFile (n : ℕ) (f : SpoolFile) : AgentM Bool := .call (.rename n f) .ret

/-- Nothing comes after. -/
def cutOff {α : Type} : AgentM α := .call .cutOff fun cut => nomatch cut

/-! ### Posting -/

/-- `retryAttempts`. -/
def retryAttempts : ℕ := 5

/-- The loop of `post` with `n` attempts left, after the error `last`. -/
def postLoop (c : Ctx) (b : Batch) : ℕ → Option PostErr → AgentM (Option PostErr)
  | 0, last => pure last
  | n + 1, last => do
    match ← ctxErr c with
    | some err => pure (last.or (some err.toPostErr))
    | none =>
      let waited ← if retryAttempts - n > 1 then retryWait c else pure true
      if !waited then pure last
      else
        let last ← postOnce c (retryAttempts - n) b
        if last = none ∨ !retryable last then pure last else postLoop c b n last

/-- `post`. -/
def post (c : Ctx) (b : Batch) : AgentM (Option PostErr) := postLoop c b retryAttempts none

/-! ### The spool -/

/-- The JSON of an item. -/
def SpoolItem.toJson (i : SpoolItem) : Json :=
  .obj ([("path", .str i.path)] ++
    (if i.batchID = "" then [] else [("batch_id", .str i.batchID)]) ++
    [("body", i.body), ("queued_at", .str i.queuedAt.format)])

/-- The file of an item, with `json.Marshal(item)` in it. -/
def SpoolItem.toFile (i : SpoolItem) : SpoolFile where
  size := byteLength (String.ofList (i.toJson.render goEscape))
  item := some i

/-- `json.Valid(body)`. -/
def validBody (body : Json) : Bool := (Json.parse (body.render goEscape)).isSome

/-- `used`. -/
def used : List ℕ → AgentM (Option ℤ)
  | [] => pure (some 0)
  | n :: names => do
    match ← statFile n with
    | none => pure none
    | some size => do
      match ← used names with
      | none => pure none
      | some total => pure (some (size + total))

/-- The loop of `makeRoom`: drop the oldest files until `incoming` fits. -/
def dropOldest (maxBytes incoming : ℤ) : ℤ → List ℕ → AgentM Bool
  | used, [] => pure (used + incoming ≤ maxBytes)
  | used, n :: names =>
    if used + incoming > maxBytes then do
      match ← statFile n with
      | none => pure false
      | some size => do
        if ← removeFile n then dropOldest maxBytes incoming (used - size) names
        else pure false
    else pure true

/-- `makeRoom`. -/
def makeRoom (maxBytes incoming : ℤ) (names : List ℕ) : AgentM Bool := do
  match ← used names with
  | none => pure false
  | some total => dropOldest maxBytes incoming total names

/-- The files listed before a sequence number is taken: listed anew when the last is gone. -/
def relist (names : List ℕ) : AgentM (Option (List ℕ)) :=
  match names.getLast? with
  | none => pure (some names)
  | some last => do
    match ← statFile last with
    | some _ => pure (some names)
    | none => spoolNames

/-- `Put`. -/
def put (maxBytes : ℕ) (b : Batch) : AgentM Bool := do
  if !validBody b.body then pure false
  else
    let queuedAt ← timeNow
    let file := ({ b with queuedAt := queuedAt } : SpoolItem).toFile
    if file.size > maxBytes then pure false
    else
      match ← spoolNames with
      | none => pure false
      | some names => do
        if ← makeRoom maxBytes file.size names then
          match ← relist names with
          | none => pure false
          | some names => do
            let seq := (names.getLast?.getD 0) + 1
            if ← writeFile seq file then renameFile seq file else pure false
        else pure false

/-- `Front`: an error, or the oldest item that can be read, if there is one. -/
def front : ℕ → AgentM (Option (Option (ℕ × SpoolItem)))
  | 0 => cutOff
  | fuel + 1 => do
    match ← spoolNames with
    | none => pure none
    | some [] => pure (some none)
    | some (n :: _) => do
      match ← readFile n with
      | none => pure none
      | some none => do
        if ← renameBad n then front fuel else pure none
      | some (some item) => pure (some (some (n, item)))

/-! ### Sending -/

/-- The loop of `drain`. -/
def drainLoop : ℕ → AgentM Unit
  | 0 => cutOff
  | fuel + 1 => do
    match ← front fuel with
    | none => pure ()
    | some none => pure ()
    | some (some (n, item)) => do
      let err ← post .replay item.toBatch
      if err = none then
        if ← removeFile n then drainLoop fuel else pure ()
      else if !retryable err then do
        let _ ← removeFile n
        drainLoop fuel
      else pure ()

/-- `drain`. -/
def drain (fuel : ℕ) : AgentM Unit := do
  match ← ctxErr .caller with
  | some _ => pure ()
  | none => drainLoop fuel

/-- `sendBatch` of a client whose spool, if it has one, may hold `spool` bytes. -/
def sendBatch (fuel : ℕ) (spool : Option ℕ) (b : Batch) : AgentM (Option PostErr) := do
  if spool.isSome then drain fuel
  let err ← post .caller b
  match spool with
  | none => pure err
  | some maxBytes =>
    if err = none ∨ !retryable err then pure err
    else
      let _ ← put maxBytes b
      pure err

/-- The calls of `sendBatch` on a client with a spool, one after the other: a call holds
`batchMu` to its end. -/
def sendAll (maxBytes : ℕ) : List (ℕ × Batch) → AgentM Unit
  | [] => pure ()
  | (fuel, b) :: calls => do
    Program.call (.start b.batchID) fun _ => do
      let _ ← sendBatch fuel (some maxBytes) b
      sendAll maxBytes calls

end Argus
