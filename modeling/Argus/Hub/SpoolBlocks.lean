import Argus.Agent.Drain
import Argus.Hub.BodyLimit
import Argus.Hub.LogsContent

/-!
# Batches that block the spool

The agent gives a batch up when it is answered with a permanent status, and posts it again when it
is answered 429 or 5xx. A drain ends at the first batch of that kind, so that a batch that the hub
answers 500 whenever it is posted keeps all later ones in the spool. `keepsMoving_iff` says which
batches of logs do that when nothing fails: those that cannot be stored.
-/

namespace Argus

open Foundations

/-! ### Replays -/

/-- With a healthy database a batch is stored, or the agent gives it up. -/
def SettlesBatch (rt : Runtime) (number : ℚ → Number) (now : Time) (header : String)
    (entries : List LogEntry) (t : IngestTables) : Prop :=
  ∃ answer t' i, (handleLogsBatch rt number now header (some entries)).run
      (txAnswer IngestTables.apply healthy) ⟨t, none, 0⟩ = (answer, ⟨t', none, i⟩) ∧
    ((answerStatus answer = 202 ∧ Kept rt number header entries t t') ∨
      permanent (answerStatus answer) = true)

/-- The spool of an agent, the tables of the hub, and the number of calls so far. -/
structure SpoolHub where
  dir : SortedMap ℕ SpoolFile
  tables : IngestTables
  calls : ℕ

/-- One more call, which changes nothing. -/
def SpoolHub.next (s : SpoolHub) : SpoolHub := { s with calls := s.calls + 1 }

/-- One more call, after which a file is gone. -/
def SpoolHub.drop (s : SpoolHub) (n : ℕ) : SpoolHub :=
  { s with dir := s.dir.erase n, calls := s.calls + 1 }

/-- An agent and a hub at which nothing fails: the time of every call, how a body is decoded, and
what is answered at the other endpoints. -/
structure Link where
  rt : Runtime
  number : ℚ → Number
  decode : Json → Option (List LogEntry)
  clock : ℕ → Time
  others : Batch → Option PostErr

namespace Link

/-- The result of `postOnce` for an answer with a status. -/
def posted (status : ℕ) : Option PostErr := if 300 ≤ status then some (.status status) else none

/-- What the hub makes of a batch. -/
def hub (w : Link) (s : SpoolHub) (b : Batch) : Option PostErr × IngestTables :=
  if b.path = "/api/v1/logs/batch" then
    let r := (handleLogsBatch w.rt w.number (w.clock s.calls) b.batchID (w.decode b.body)).run
      (txAnswer IngestTables.apply healthy) ⟨s.tables, none, 0⟩
    (posted (answerStatus r.1), r.2.committed)
  else (w.others b, s.tables)

/-- The answer to a call of a drain. No context ends, no request is lost and files can be read and
removed. -/
def answer (w : Link) (s : SpoolHub) : (o : AgentOp) → Option (o.Answer × SpoolHub)
  | .ctxErr _ => some (none, s.next)
  | .wait _ => some (true, s.next)
  | .postOnce _ _ b => some ((w.hub s b).1, { s.next with tables := (w.hub s b).2 })
  | .names => some (some s.dir.keys, s.next)
  | .readFile n => some ((s.dir.get? n).map SpoolFile.item, s.next)
  | .renameBad n => some (true, s.drop n)
  | .remove n => some (true, s.drop n)
  | _ => none

/-- Drains one after the other. -/
def drains (w : Link) (fuel : ℕ) : ℕ → SpoolHub → Option SpoolHub
  | 0, s => some s
  | k + 1, s => ((drain fuel).replay w.answer s).bind fun r => w.drains fuel k r.2

end Link

/-- A batch blocks the spool: from some state on every drain comes to an end and leaves it in
front. -/
def Blocks (w : Link) (b : Batch) : Prop :=
  ∃ (s : SpoolHub) (n : ℕ) (item : SpoolItem) (fuel : ℕ), item.toBatch = b ∧
    ∀ k, ∃ s', w.drains fuel k s = some s' ∧ InFront s'.dir n item

section Replays

variable {w : Link} {b : Batch} {entries : List LogEntry}

/-- What the hub makes of a batch of logs. -/
theorem hub_logs (hpath : b.path = "/api/v1/logs/batch") (hdecode : w.decode b.body = some entries)
    (s : SpoolHub) : ∃ answer t', w.hub s b = (Link.posted (answerStatus answer), t') ∧
      Handled w.rt w.number b.batchID entries answer s.tables t' := by
  obtain ⟨answer, t', i, hrun, hhandled⟩ := @run_handleLogsBatch w.rt w.number (w.clock s.calls)
    b.batchID entries s.tables
  refine ⟨answer, t', ?_, hhandled⟩
  rw [Link.hub, if_pos hpath, hdecode, hrun]

/-- A batch that cannot be stored is refused, whatever the number of attempts. -/
theorem replay_postLoop_refused (hpath : b.path = "/api/v1/logs/batch")
    (hdecode : w.decode b.body = some entries)
    (hnot : ¬ BatchStorable w.rt b.batchID entries) {s : SpoolHub}
    (hnew : ¬ Known b.batchID s.tables) (n : ℕ) (last : Option PostErr) :
    ∃ s', (postLoop .replay b (n + 1) last).replay w.answer s =
        some (some (.status 500), s') ∧ s'.dir = s.dir ∧ s'.tables = s.tables := by
  -- every attempt is answered alike, as the refused request leaves the tables
  have hattempt : ∀ (s₁ : SpoolHub) (attempt : ℕ), s₁.tables = s.tables →
      w.answer s₁ (.postOnce .replay attempt b) = some (some (.status 500), s₁.next) := by
    intro s₁ attempt htables
    obtain ⟨answer, t', hhub, hhandled⟩ := hub_logs hpath hdecode s₁
    have hstatus := hhandled.refused hnot (htables ▸ hnew)
    obtain ⟨h202, -⟩ | ⟨-, rfl⟩ := hhandled.result
    · exact absurd (h202.symm.trans hstatus) (by decide)
    · rw [Link.answer, hhub, hstatus]
      rfl
  -- one round comes to the next one, whether there is a wait before it or not
  have hround : ∀ (n : ℕ) (last : Option PostErr) (s₁ : SpoolHub), s₁.tables = s.tables →
      ∃ s₂, (postLoop .replay b (n + 1) last).replay w.answer s₁ =
        (postLoop .replay b n (some (.status 500))).replay w.answer s₂ ∧
          s₂.dir = s₁.dir ∧ s₂.tables = s.tables := by
    intro n last s₁ htables
    have hctx : ∀ s₂ : SpoolHub, w.answer s₂ (.ctxErr .replay) = some (none, s₂.next) :=
      fun _ => rfl
    rw [postLoop]
    by_cases hlater : retryAttempts - n > 1
    · refine ⟨s₁.next.next.next, ?_, rfl, htables⟩
      have hwait : w.answer s₁.next (.wait .replay) = some (true, s₁.next.next) := rfl
      simp only [Program.call_bind, Program.ret_bind, if_pos hlater]
      rw [Program.replay_call (hctx s₁)]
      dsimp only
      rw [Program.replay_call hwait, if_neg (by decide),
        Program.replay_call (hattempt s₁.next.next _ htables), if_neg (by decide)]
    · refine ⟨s₁.next.next, ?_, rfl, htables⟩
      simp only [Program.call_bind, Program.ret_bind, if_neg hlater]
      rw [Program.replay_call (hctx s₁)]
      dsimp only
      rw [Program.pure_def, Program.ret_bind, if_neg (by decide),
        Program.replay_call (hattempt s₁.next _ htables), if_neg (by decide)]
  have hloop : ∀ (n : ℕ) (last : Option PostErr) (s₁ : SpoolHub), s₁.tables = s.tables →
      ∃ s', (postLoop .replay b (n + 1) last).replay w.answer s₁ =
        some (some (.status 500), s') ∧ s'.dir = s₁.dir ∧ s'.tables = s.tables := by
    intro n
    induction n with
    | zero =>
      intro last s₁ htables
      obtain ⟨s₂, hrun, hdir, htables₂⟩ := hround 0 last s₁ htables
      exact ⟨s₂, hrun, hdir, htables₂⟩
    | succ n ih =>
      intro last s₁ htables
      obtain ⟨s₂, hrun, hdir, htables₂⟩ := hround (n + 1) last s₁ htables
      obtain ⟨s', hrest, hdir', htables'⟩ := ih (some (.status 500)) s₂ htables₂
      exact ⟨s', hrun.trans hrest, hdir'.trans hdir, htables'⟩
  exact hloop n last s rfl

/-- The front of the spool is read. -/
theorem answer_front {s : SpoolHub} {n : ℕ} {item : SpoolItem} (h : InFront s.dir n item) :
    ∃ ks, w.answer s .names = some (some (n :: ks), s.next) ∧
      w.answer s.next (.readFile n) = some (some (some item), s.next.next) := by
  obtain ⟨ks, file, hkeys, hfile, hitem⟩ := h
  refine ⟨ks, ?_, ?_⟩
  · rw [Link.answer, hkeys]
  · have hdir : s.next.dir = s.dir := rfl
    rw [Link.answer, hdir, hfile, Option.map_some, hitem]

/-- **A drain that is blocked.** It posts the batch that cannot be stored and changes nothing. -/
theorem replay_drain_refused (hpath : b.path = "/api/v1/logs/batch")
    (hdecode : w.decode b.body = some entries)
    (hnot : ¬ BatchStorable w.rt b.batchID entries) {s : SpoolHub} {n : ℕ} {item : SpoolItem}
    (hitem : item.toBatch = b) (hfront : InFront s.dir n item)
    (hnew : ¬ Known b.batchID s.tables) :
    ∃ s', (drain 2).replay w.answer s = some ((), s') ∧ s'.dir = s.dir ∧
      s'.tables = s.tables := by
  have hctx : w.answer s (.ctxErr .caller) = some (none, s.next) := rfl
  obtain ⟨ks, hnames, hread⟩ := @answer_front w s.next n item hfront
  obtain ⟨s', hpost, hdir, htables⟩ := @replay_postLoop_refused w b entries hpath hdecode hnot
    s.next.next.next hnew 4 none
  refine ⟨s', ?_, hdir, htables⟩
  rw [drain, drainLoop, front]
  simp only [Program.call_bind, Program.ret_bind]
  rw [Program.replay_call hctx]
  dsimp only
  rw [Program.replay_call hnames]
  dsimp only
  rw [Program.call_bind, Program.replay_call hread]
  dsimp only
  rw [Program.pure_def, Program.ret_bind]
  dsimp only
  rw [Program.replay_bind, hitem, post, show retryAttempts = 4 + 1 from rfl, hpost,
    Option.bind_some]
  dsimp only
  rw [if_neg (by decide), if_neg (by decide)]
  rfl

/-- A batch that cannot be stored blocks the spool. -/
theorem blocks_of_not_storable (hpath : b.path = "/api/v1/logs/batch")
    (hdecode : w.decode b.body = some entries)
    (hnot : ¬ BatchStorable w.rt b.batchID entries) : Blocks w b := by
  have hnew : ¬ Known b.batchID IngestTables.empty := fun h => absurd h.2 (by
    rw [IngestTables.empty, SortedMap.get?_empty]
    exact Bool.false_ne_true)
  let item : SpoolItem := { b with queuedAt := ⟨0⟩ }
  have hfront : InFront ((∅ : SortedMap ℕ SpoolFile).insert 1 ⟨0, some item⟩) 1 item :=
    ⟨[], _, rfl, SortedMap.get?_insert_self _ _ _, rfl⟩
  refine ⟨⟨(∅ : SortedMap ℕ SpoolFile).insert 1 ⟨0, some item⟩, IngestTables.empty, 0⟩, 1, item, 2,
    rfl, fun k => ?_⟩
  -- what a drain leaves is again such a state
  have hdrains : ∀ (k : ℕ) (s : SpoolHub), InFront s.dir 1 item → ¬ Known b.batchID s.tables →
      ∃ s', w.drains 2 k s = some s' ∧ InFront s'.dir 1 item := by
    intro k
    induction k with
    | zero => exact fun s hfront _ => ⟨s, rfl, hfront⟩
    | succ k ih =>
      intro s hfront hnew
      obtain ⟨s₁, hrun, hdir, htables⟩ := replay_drain_refused hpath hdecode hnot
        (show item.toBatch = b from rfl) hfront hnew
      obtain ⟨s', hrest, hfront'⟩ := ih s₁ (hdir ▸ hfront) (htables ▸ hnew)
      exact ⟨s', by rw [Link.drains, hrun]; exact hrest, hfront'⟩
  exact hdrains k _ hfront hnew

/-- No call puts a file back. -/
theorem get?_eq_none_of_answer {n : ℕ} (s : SpoolHub) (o : AgentOp) (r : o.Answer)
    (s' : SpoolHub) (h : w.answer s o = some (r, s')) (hnone : s.dir.get? n = none) :
    s'.dir.get? n = none := by
  have herase : ∀ m, (s.dir.erase m).get? n = none := by
    intro m
    rw [SortedMap.get?_erase]
    split_ifs
    · rfl
    · exact hnone
  have hsame : ∀ {x : Option (o.Answer × SpoolHub)} {a : o.Answer} {s₁ : SpoolHub},
      x = some (r, s') → x = some (a, s₁) → s₁.dir.get? n = none → s'.dir.get? n = none := by
    intro x a s₁ hx hx' hdir
    obtain ⟨-, rfl⟩ := Prod.mk.inj (Option.some.inj (hx.symm.trans hx'))
    exact hdir
  cases o with
  | ctxErr c => exact hsame h rfl hnone
  | wait c => exact hsame h rfl hnone
  | postOnce c attempt b => exact hsame h rfl hnone
  | names => exact hsame h rfl hnone
  | readFile m => exact hsame h rfl hnone
  | renameBad m => exact hsame h rfl (herase m)
  | remove m => exact hsame h rfl (herase m)
  | now => exact absurd h (Option.some_ne_none _).symm
  | stat m => exact absurd h (Option.some_ne_none _).symm
  | writeFile m f => exact absurd h (Option.some_ne_none _).symm
  | rename m f => exact absurd h (Option.some_ne_none _).symm
  | start id => exact absurd h (Option.some_ne_none _).symm
  | cutOff => exact absurd h (Option.some_ne_none _).symm

/-- A batch that can be stored is posted once. -/
theorem replay_post_stored (hpath : b.path = "/api/v1/logs/batch")
    (hdecode : w.decode b.body = some entries)
    (hstorable : BatchStorable w.rt b.batchID entries) (s : SpoolHub) :
    ∃ s', (post .replay b).replay w.answer s = some (none, s') ∧ s'.dir = s.dir := by
  have hctx : w.answer s (.ctxErr .replay) = some (none, s.next) := rfl
  obtain ⟨answer, t', hhub, hhandled⟩ := hub_logs hpath hdecode s.next
  have hattempt : w.answer s.next (.postOnce .replay (retryAttempts - 4) b) =
      some (none, { s.next.next with tables := t' }) := by
    rw [Link.answer, hhub, hhandled.stored hstorable]
    rfl
  refine ⟨{ s.next.next with tables := t' }, ?_, rfl⟩
  rw [post, show retryAttempts = 4 + 1 from rfl, postLoop]
  simp only [Program.call_bind, Program.ret_bind]
  rw [Program.replay_call hctx]
  dsimp only
  rw [if_neg (by decide), Program.pure_def, Program.ret_bind, if_neg (by decide),
    Program.replay_call hattempt]
  rfl

/-- A drain that comes to an end has removed a batch that can be stored. -/
theorem get?_of_replay_drain (hpath : b.path = "/api/v1/logs/batch")
    (hdecode : w.decode b.body = some entries)
    (hstorable : BatchStorable w.rt b.batchID entries) {s s' : SpoolHub} {n : ℕ}
    {item : SpoolItem} (hitem : item.toBatch = b) (hfront : InFront s.dir n item) {fuel : ℕ}
    {u : Unit} (hrun : (drain fuel).replay w.answer s = some (u, s')) : s'.dir.get? n = none := by
  have hctx : w.answer s (.ctxErr .caller) = some (none, s.next) := rfl
  obtain ⟨ks, hnames, hread⟩ := @answer_front w s.next n item hfront
  obtain ⟨s₁, hpost, hdir⟩ := replay_post_stored hpath hdecode hstorable s.next.next.next
  have hremove : w.answer s₁ (.remove n) = some (true, s₁.drop n) := rfl
  rcases fuel with - | - | fuel
  · exact absurd hrun.symm (Option.some_ne_none _)
  · exact absurd hrun.symm (Option.some_ne_none _)
  rw [drain, drainLoop, front] at hrun
  simp only [Program.call_bind, Program.ret_bind] at hrun
  rw [Program.replay_call hctx] at hrun
  dsimp only at hrun
  rw [Program.replay_call hnames] at hrun
  dsimp only at hrun
  rw [Program.call_bind, Program.replay_call hread] at hrun
  dsimp only at hrun
  rw [Program.pure_def, Program.ret_bind] at hrun
  dsimp only at hrun
  rw [Program.replay_bind, hitem, hpost, Option.bind_some] at hrun
  dsimp only at hrun
  rw [if_pos rfl, Program.replay_call hremove] at hrun
  refine Program.keeps_of_replay (J := fun s => s.dir.get? n = none) get?_eq_none_of_answer hrun ?_
  exact (SortedMap.get?_erase _ _ _).trans (if_pos rfl)

/-- A batch that can be stored does not block the spool. -/
theorem not_blocks_of_storable (hpath : b.path = "/api/v1/logs/batch")
    (hdecode : w.decode b.body = some entries)
    (hstorable : BatchStorable w.rt b.batchID entries) : ¬ Blocks w b := by
  rintro ⟨s, n, item, fuel, hitem, hall⟩
  obtain ⟨s₀, hzero, hfront⟩ := hall 0
  obtain rfl : s = s₀ := Option.some.inj hzero
  obtain ⟨s', hone, -, file, -, hfile, -⟩ := hall 1
  obtain ⟨⟨u, s₁⟩, hrun, hlast⟩ := Option.bind_eq_some_iff.mp hone
  obtain rfl : s₁ = s' := Option.some.inj hlast
  have hgone := get?_of_replay_drain hpath hdecode hstorable hitem hfront hrun
  exact absurd (hgone.symm.trans hfile) (Option.some_ne_none file).symm

/-- **When a batch is settled.** With a healthy database a batch of logs is stored, or answered with
a status for which the agent gives it up, and it does not stay in front of the spool, if and only if
its id and the message, the level and the entity of every entry have no U+0000, and no pause that is
read off a message is too long for a number. -/
theorem keepsMoving_iff (w : Link) (id : String) (body : Json) (entries : List LogEntry)
    (hdecode : w.decode body = some entries) :
    ((∀ now t, SettlesBatch w.rt w.number now id entries t) ∧
      ¬ Blocks w ⟨"/api/v1/logs/batch", id, body⟩) ↔ BatchStorable w.rt id entries := by
  constructor
  · rintro ⟨-, hmoves⟩
    by_contra hnot
    exact hmoves (blocks_of_not_storable rfl hdecode hnot)
  · intro hstorable
    refine ⟨fun now t => ?_, not_blocks_of_storable rfl hdecode hstorable⟩
    obtain ⟨answer, t', i, hrun, hhandled⟩ := run_handleLogsBatch w.number now id entries t
    have hstatus := hhandled.stored hstorable
    obtain hkept | ⟨h500, -⟩ := hhandled.result
    · exact ⟨answer, t', i, hrun, .inl hkept⟩
    · exact absurd (h500.symm.trans hstatus) (by decide)

end Replays

/-! ### A line with U+0000 -/

/-- A link that delivers the batch of some entries. -/
def logsLink (number : ℚ → Number) (entries : List LogEntry) : Link where
  rt := asciiRuntime
  number := number
  decode _ := some entries
  clock _ := ⟨63844891260000000000⟩
  others _ := none

/-- The batch of one short line does not block the spool. -/
theorem keepsMoving_oneEntry :
    (∀ now t, SettlesBatch asciiRuntime (fun _ => Number.ofDigit 0) now "b1" [oneEntry] t) ∧
      ¬ Blocks (logsLink (fun _ => Number.ofDigit 0) [oneEntry]) (logsBatch "b1" [oneEntry]) := by
  refine (keepsMoving_iff (logsLink (fun _ => Number.ofDigit 0) [oneEntry]) "b1" _ [oneEntry]
    rfl).mpr ⟨fun _ => by decide, ?_⟩
  refine List.forall_mem_singleton.mpr ⟨by decide +kernel, fun p hp => ?_⟩
  have hnone : (ClassifyLog asciiRuntime oneEntry.message oneEntry.level).2 = none := by
    decide +kernel
  exact absurd (hnone.symm.trans hp) (Option.some_ne_none p).symm

/-- A line that ends in U+0000. -/
def nulText : List Char := ['o', 'k', '\x00']

/-- What is read of the line. -/
def nulLine : ParsedLine := ⟨(stampAt false).time, String.ofList nulText⟩

/-- The entry of the line. -/
def nulEntry : LogEntry := logEntry asciiRuntime "h" someContainer nulLine

/-- The line is collected. -/
theorem collectLogs_nulLine :
    ∃ source s, collectLogs asciiRuntime "h" ∅ [source] = some ([nulEntry], s) := by
  have hascii : ∀ c ∈ nulText, c.toNat < 128 := forall_mem_of_all (by decide)
  let r : LogRecord := LogRecord.ofText (stampAt false) (by decide +kernel) nulText hascii
    (by decide) (by decide +kernel) (List.cons_ne_nil _ _) (by decide)
  let source : LogSource := ⟨someContainer, some r.frame, fun _ => ⟨0⟩⟩
  have hparsed : r.parsed = nulLine := congrArg (ParsedLine.mk _) (goString_asciiBytes hascii)
  have hbody : demuxDockerLogs (r.frame.take bodyLimit) = some [nulLine] := by
    rw [demux_frame, hparsed]
  have hlines : source.lines = [nulLine] := by
    rw [LogSource.lines, LogSource.window, Option.bind_some, hbody, Option.getD_some]
    refine coalesceLogLines_single _ ?_ (by decide) (by decide)
    rw [nulLine, String.toList_ofList]
    exact forall_mem_of_all (by decide)
  have hread : ∀ source' ∈ [source], ∀ body ∈ source'.body,
      (demuxDockerLogs (body.take bodyLimit)).isSome := by
    refine List.forall_mem_singleton.mpr fun body hmem => ?_
    obtain rfl := Option.some.inj hmem
    rw [hbody]
    rfl
  obtain ⟨entries, s, hcollect⟩ := exists_collectLogs asciiRuntime "h" hread ∅
  have hentries := collectLogs_eq hcollect
  have hkept := @keptLines_single (∅ : LogState).get? [source] (fun _ => nulLine)
    (List.forall_mem_singleton.mpr hlines) (List.nodup_singleton _) fun _ _ => rfl
  rw [hkept] at hentries
  exact ⟨source, s, by rw [hcollect, hentries]; rfl⟩

/-- **One such line.** The agent collects it, the hub refuses its batch whenever it is posted, and
the batch stays in front of the spool. -/
theorem nulEntry_blocks :
    (∃ source s, collectLogs asciiRuntime "h" ∅ [source] = some ([nulEntry], s)) ∧
      ¬ ∀ (w : Link) (id : String) (body : Json) (entries : List LogEntry),
        w.decode body = some entries →
          (∀ now t, SettlesBatch w.rt w.number now id entries t) ∧
            ¬ Blocks w ⟨"/api/v1/logs/batch", id, body⟩ := by
  refine ⟨collectLogs_nulLine, fun hall => ?_⟩
  have hnot : ¬ BatchStorable asciiRuntime "b1" [nulEntry] := by
    intro h
    have htexts := (List.forall_mem_singleton.mp h.entries).texts
    have hinvalid : validTexts [nulEntry.message, nulEntry.level, nulEntry.entityUID] = false := by
      decide +kernel
    exact absurd (hinvalid.symm.trans htexts) Bool.false_ne_true
  let w := logsLink (fun _ => Number.ofDigit 0) [nulEntry]
  obtain ⟨-, hmoves⟩ := hall w "b1" (logsBatch "b1" [nulEntry]).body [nulEntry] rfl
  exact hmoves (blocks_of_not_storable rfl rfl hnot)

end Argus
