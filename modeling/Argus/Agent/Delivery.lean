import Argus.Agent.World
import Mathlib.Algebra.Order.BigOperators.Group.List

/-!
# No batch is lost

What becomes of a batch when `sendBatch` returns.
-/

namespace Argus

open Foundations AgentState Program

/-- No attempt was answered. -/
def Untried (c : Ctx) (b : Batch) (log : List AgentEvent) : Prop :=
  ∀ r, AgentEvent.answered c b r ∉ log

/-- What the log shows of the result of a post. -/
def PostShown (c : Ctx) (b : Batch) (log : List AgentEvent) : Option PostErr → Prop
  | none => .answered c b none ∈ log
  | some (.status code) => .answered c b (some (.status code)) ∈ log ∧ 300 ≤ code
  | some .canceled => .answered c b (some .canceled) ∈ log ∨ Untried c b log
  | some .transport => True

/-- What was answered is shown, and nothing that happens besides changes that. -/
theorem postShown_of_mem {c : Ctx} {b : Batch} {log : List AgentEvent} {r : Option PostErr}
    (h : .answered c b r ∈ log) (hcode : ∀ code, r = some (.status code) → 300 ≤ code) :
    PostShown c b log r := by
  match r with
  | none => exact h
  | some .canceled => exact .inl h
  | some .transport => trivial
  | some (.status code) => exact ⟨h, hcode code rfl⟩

@[simp] theorem dir_record (s : AgentState) (e : AgentEvent) : (s.record e).dir = s.dir := rfl

@[simp] theorem dir_recordIf (s : AgentState) (p : Bool) (e : AgentEvent) :
    (s.recordIf p e).dir = s.dir := by
  rw [AgentState.recordIf]
  split_ifs <;> rfl

theorem log_recordIf_interrupted {s : AgentState} {p : Bool} {e : AgentEvent}
    (h : e ∈ s.log) : e ∈ (s.recordIf p .interrupted).log := by
  rw [AgentState.recordIf]
  split_ifs
  · exact List.mem_append_left _ h
  · exact h

theorem untried_recordIf {c : Ctx} {b : Batch} {s : AgentState} {p : Bool}
    (h : Untried c b s.log) : Untried c b (s.recordIf p .interrupted).log := by
  intro r hr
  rw [AgentState.recordIf] at hr
  split_ifs at hr
  · rcases List.mem_append.mp hr with hr | hr
    · exact h r hr
    · exact nomatch List.mem_singleton.mp hr
  · exact h r hr

/-- The error before an attempt: none before the first, else one that was answered. -/
def LastShown (c : Ctx) (b : Batch) (n : ℕ) (log : List AgentEvent) : Option PostErr → Prop
  | none => n = retryAttempts ∧ Untried c b log
  | some err => .answered c b (some err) ∈ log ∧ ∀ code, err = .status code → 300 ≤ code

theorem LastShown.recordIf {c : Ctx} {b : Batch} {n : ℕ} {s : AgentState} {last : Option PostErr}
    (h : LastShown c b n s.log last) (p : Bool) :
    LastShown c b n (s.recordIf p .interrupted).log last := by
  cases last with
  | none => exact ⟨h.1, untried_recordIf h.2⟩
  | some err => exact ⟨log_recordIf_interrupted h.1, h.2⟩

theorem LastShown.postShown {c : Ctx} {b : Batch} {n : ℕ} {log : List AgentEvent} {err : PostErr}
    (h : LastShown c b n log (some err)) : PostShown c b log (some err) :=
  postShown_of_mem h.1 fun code hcode => h.2 code (Option.some.inj hcode)

/-- The loop of `post` leaves the spool, and returns what was answered last. -/
theorem wp_postLoop {Healthy : Prop} {c : Ctx} {b : Batch} {n : ℕ} {last : Option PostErr}
    {s : AgentState} (hlast : LastShown c b n s.log last) :
    (postLoop c b n last).wp (agentEffect Healthy) (fun _ => True)
      (fun r s' => s'.dir = s.dir ∧ PostShown c b s'.log r) s := by
  induction n generalizing last s with
  | zero =>
    cases last with
    | none => exact absurd hlast.1 (by decide)
    | some err => exact ⟨rfl, hlast.postShown⟩
  | succ n ih =>
    rw [postLoop]
    simp only [call_bind, ret_bind, wp_call]
    rintro err s₁ ⟨-, rfl⟩
    refine ⟨trivial, ?_⟩
    have hlast₁ := hlast.recordIf err.isSome
    generalize hs₁ : s.recordIf err.isSome .interrupted = s₁ at hlast₁ ⊢
    have hdir₁ : s₁.dir = s.dir := by rw [← hs₁, dir_recordIf]
    cases err with
    | some err =>
      cases last with
      | none =>
        cases err with
        | canceled => exact ⟨hdir₁, .inr hlast₁.2⟩
        | deadlineExceeded => exact ⟨hdir₁, trivial⟩
      | some last => exact ⟨hdir₁, hlast₁.postShown⟩
    | none =>
      -- the attempt itself, after which the loop ends or goes on
      have hattempt : ∀ s₂ : AgentState, s₂.dir = s.dir →
          (Program.call (AgentOp.postOnce c (retryAttempts - n) b) fun r =>
            if r = none ∨ (!retryable r) = true then Program.ret r else postLoop c b n r).wp
              (agentEffect Healthy) (fun _ => True)
              (fun r s' => s'.dir = s.dir ∧ PostShown c b s'.log r) s₂ := by
        rintro s₂ hdir₂ r s₃ ⟨accepted, -, hcode, -, rfl⟩
        refine ⟨trivial, ?_⟩
        have hmem : ∀ p, AgentEvent.answered c b r ∈
            ((((s₂.record (.posted c b.batchID)).recordIf accepted
              (.accepted c b.batchID)).record (.answered c b r)).recordIf p .interrupted).log :=
          fun p =>
          log_recordIf_interrupted (List.mem_append_right _ List.mem_cons_self)
        beta_reduce
        split_ifs with hfinal
        · exact ⟨by simp [hdir₂], postShown_of_mem (hmem _) hcode⟩
        · refine wp_post (ih ?_) ?_
          · rcases r with - | err
            · exact absurd (Or.inl rfl) hfinal
            · exact ⟨hmem _, fun code h => hcode code (congrArg some h)⟩
          · rintro r' s' ⟨hdir, hr'⟩
            exact ⟨hdir.trans (by simp [hdir₂]), hr'⟩
      simp only
      split_ifs with hfirst
      · rintro waited s₂ rfl
        refine ⟨trivial, ?_⟩
        cases waited with
        | false =>
          cases last with
          | none =>
            have := hlast₁.1
            rw [retryAttempts] at this hfirst
            omega
          | some last => exact ⟨by simp [hdir₁], (hlast₁.recordIf _).postShown⟩
        | true => exact hattempt _ (by simp [hdir₁])
      · exact hattempt _ hdir₁

/-! ### Which operations a program asks for -/

theorem calls_post {P : AgentOp → Prop} {c : Ctx} {b : Batch} (hctx : P (.ctxErr c))
    (hwait : P (.wait c)) (hpost : ∀ k, P (.postOnce c k b)) : (post c b).Calls P := by
  suffices ∀ n last, (postLoop c b n last).Calls P from this _ _
  intro n
  induction n with
  | zero => exact fun _ => trivial
  | succ n ih =>
    intro last
    rw [postLoop]
    refine ⟨hctx, fun err => ?_⟩
    cases err with
    | some err => trivial
    | none =>
      have hattempt : (Program.call (AgentOp.postOnce c (retryAttempts - n) b) fun r =>
          if r = none ∨ (!retryable r) = true then Program.ret r
          else postLoop c b n r).Calls P := by
        refine ⟨hpost _, fun r => ?_⟩
        beta_reduce
        split_ifs
        · trivial
        · exact ih r
      simp only
      split_ifs with hfirst
      · refine ⟨hwait, fun waited => ?_⟩
        cases waited with
        | false => trivial
        | true => exact hattempt
      · exact hattempt

theorem calls_front {P : AgentOp → Prop} (hcut : P .cutOff) (hnames : P .names)
    (hread : ∀ n, P (.readFile n)) (hbad : ∀ n, P (.renameBad n)) (fuel : ℕ) :
    (front fuel).Calls P := by
  induction fuel with
  | zero => exact ⟨hcut, fun cut => nomatch cut⟩
  | succ fuel ih =>
    refine ⟨hnames, fun names => ?_⟩
    match names with
    | none => trivial
    | some [] => trivial
    | some (n :: _) =>
      refine ⟨hread n, fun item => ?_⟩
      match item with
      | none => trivial
      | some (some item) => trivial
      | some none =>
        refine ⟨hbad n, fun renamed => ?_⟩
        cases renamed with
        | false => trivial
        | true => exact ih

/-- Making room looks at the sizes of files and removes some. -/
theorem calls_makeRoom {P : AgentOp → Prop} {maxBytes incoming : ℤ} (hstat : ∀ n, P (.stat n))
    (hremove : ∀ n, P (.remove n)) (names : List ℕ) :
    (makeRoom maxBytes incoming names).Calls P := by
  have hused : ∀ names, (used names).Calls P := by
    intro names
    induction names with
    | nil => trivial
    | cons n names ih =>
      refine ⟨hstat n, fun size => ?_⟩
      cases size with
      | none => trivial
      | some size =>
        refine ih.bind fun total => ?_
        cases total <;> trivial
  have hdrop : ∀ names used, (dropOldest maxBytes incoming used names).Calls P := by
    intro names
    induction names with
    | nil => exact fun _ => trivial
    | cons n names ih =>
      intro used
      rw [dropOldest]
      split_ifs
      · refine ⟨hstat n, fun size => ?_⟩
        cases size with
        | none => trivial
        | some size =>
          refine ⟨hremove n, fun removed => ?_⟩
          cases removed with
          | false => trivial
          | true => exact ih _
      · trivial
  refine (hused names).bind fun total => ?_
  cases total with
  | none => trivial
  | some total => exact hdrop names total

/-- An operation that neither puts a file into the spool nor posts for the caller. -/
def AgentOp.Drains : AgentOp → Prop
  | .rename _ _ => False
  | .start _ => False
  | .postOnce .caller _ _ => False
  | _ => True

/-- A drain puts nothing into the spool and posts replays only. -/
theorem calls_drain (fuel : ℕ) : (drain fuel).Calls AgentOp.Drains := by
  have hloop : ∀ fuel, (drainLoop fuel).Calls AgentOp.Drains := by
    intro fuel
    induction fuel with
    | zero => exact ⟨trivial, fun cut => nomatch cut⟩
    | succ fuel ih =>
      refine (calls_front trivial trivial (fun _ => trivial) (fun _ => trivial) fuel).bind
        fun found => ?_
      match found with
      | none => trivial
      | some none => trivial
      | some (some (n, item)) =>
        refine (calls_post trivial trivial fun _ => trivial).bind fun err => ?_
        split_ifs
        · refine ⟨trivial, fun removed => ?_⟩
          cases removed with
          | false => trivial
          | true => exact ih
        · exact ⟨trivial, fun _ => ih⟩
        · trivial
  refine ⟨trivial, fun err => ?_⟩
  cases err with
  | none => exact hloop fuel
  | some err => trivial

/-! ### Putting a batch into a spool with room -/

/-- The size of a file. -/
def AgentState.sizeAt (s : AgentState) (n : ℕ) : ℤ :=
  (((s.dir.get? n).map SpoolFile.size).getD 0 : ℕ)

/-- The size of some files. -/
def AgentState.totalSize (s : AgentState) (names : List ℕ) : ℤ := (names.map s.sizeAt).sum

theorem dir_drop (s : AgentState) (n : ℕ) : (s.drop n).dir = s.dir.erase n := by
  rw [AgentState.drop]
  split <;> rfl

theorem mem_keys_drop {s : AgentState} {n k : ℕ} :
    k ∈ (s.drop n).dir.keys ↔ k ∈ s.dir.keys ∧ k ≠ n := by
  simp only [dir_drop, SortedMap.mem_keys, SortedMap.get?_erase]
  split_ifs with h
  · simp [h]
  · simp [h]

theorem sizeAt_drop {s : AgentState} {n k : ℕ} (h : k ≠ n) : (s.drop n).sizeAt k = s.sizeAt k := by
  rw [AgentState.sizeAt, AgentState.sizeAt, dir_drop, SortedMap.get?_erase, if_neg h]

theorem stat_healthy {s : AgentState} {n : ℕ} (h : n ∈ s.dir.keys) {r : Option ℕ} {s' : AgentState}
    (hE : agentEffect True s (.stat n) r s') :
    s = s' ∧ ∃ size : ℕ, r = some size ∧ (size : ℤ) = s.sizeAt n := by
  obtain ⟨hr | ⟨-, hr⟩, rfl⟩ := hE
  · obtain ⟨f, hf⟩ := SortedMap.mem_keys.mp h
    rw [hf] at hr
    exact ⟨rfl, f.size, hr, by rw [AgentState.sizeAt, hf]; rfl⟩
  · exact absurd trivial hr

theorem wp_used {names : List ℕ} {s : AgentState} (h : ∀ n ∈ names, n ∈ s.dir.keys) :
    (used names).wp (agentEffect True) (fun _ => True)
      (fun r s' => s' = s ∧ r = some (s.totalSize names)) s := by
  induction names with
  | nil => exact ⟨rfl, rfl⟩
  | cons n names ih =>
    obtain ⟨hn, hnames⟩ := List.forall_mem_cons.mp h
    rw [used]
    simp only [call_bind, ret_bind, wp_call]
    intro r s' hE
    obtain ⟨rfl, size, rfl, hsize⟩ := stat_healthy hn hE
    refine ⟨trivial, wp_seq (ih hnames) ?_⟩
    rintro r s' ⟨rfl, rfl⟩
    refine ⟨rfl, ?_⟩
    rw [hsize, AgentState.totalSize, AgentState.totalSize, List.map_cons, List.sum_cons]

/-- Room is made by dropping the oldest files, all of them if need be. -/
theorem wp_dropOldest {maxBytes incoming : ℤ} (hfits : incoming ≤ maxBytes) {names : List ℕ}
    (hnodup : names.Nodup) :
    ∀ s : AgentState, (∀ n ∈ names, n ∈ s.dir.keys) →
      (dropOldest maxBytes incoming (s.totalSize names) names).wp (agentEffect True)
        (fun _ => True)
        (fun r s' => r = true ∧ ∀ k ∈ s'.dir.keys, k ∈ s.dir.keys) s := by
  induction names with
  | nil =>
    intro s _
    rw [dropOldest]
    refine ⟨?_, fun k hk => hk⟩
    simpa [AgentState.totalSize] using hfits
  | cons n names ih =>
    intro s h
    obtain ⟨hn, hnames⟩ := List.forall_mem_cons.mp h
    obtain ⟨hnotin, hnodup⟩ := List.nodup_cons.mp hnodup
    rw [dropOldest]
    split_ifs
    · intro r s₁ hE
      obtain ⟨rfl, size, rfl, hsize⟩ := stat_healthy hn hE
      refine ⟨trivial, ?_⟩
      intro removed s₂ hE
      cases removed with
      | false => exact absurd trivial hE.1
      | true =>
        obtain rfl : s₂ = s.drop n := hE
        have hne : ∀ k ∈ names, k ≠ n := fun k hk heq => hnotin (heq ▸ hk)
        -- the loop subtracts what the file that goes had
        have htotal : s.totalSize (n :: names) - size = (s.drop n).totalSize names := by
          have hrest : names.map (s.drop n).sizeAt = names.map s.sizeAt :=
            List.map_congr_left fun k hk => sizeAt_drop (hne k hk)
          rw [AgentState.totalSize, AgentState.totalSize, hrest, List.map_cons, List.sum_cons,
            hsize]
          omega
        refine ⟨trivial, ?_⟩
        have hrest := ih hnodup (s.drop n) fun k hk => mem_keys_drop.mpr ⟨hnames k hk, hne k hk⟩
        rw [← htotal] at hrest
        exact wp_post hrest fun r s' ⟨hr, hkeys⟩ =>
          ⟨hr, fun k hk => (mem_keys_drop.mp (hkeys k hk)).1⟩
    · exact ⟨rfl, fun k hk => hk⟩

/-- The files listed before a sequence number is taken are files of the spool, now or before. -/
theorem wp_relist {names : List ℕ} {s : AgentState} {limit : ℕ} (hnames : ∀ n ∈ names, n < limit)
    (hkeys : ∀ n ∈ s.dir.keys, n < limit) :
    (relist names).wp (agentEffect True) (fun _ => True)
      (fun r s' => s'.dir = s.dir ∧ ∃ names', r = some names' ∧ ∀ n ∈ names', n < limit) s := by
  rw [relist]
  cases names.getLast? with
  | none => exact ⟨rfl, names, rfl, hnames⟩
  | some last =>
    rintro r s₁ ⟨-, rfl⟩
    refine ⟨trivial, ?_⟩
    cases r with
    | some size => exact ⟨rfl, names, rfl, hnames⟩
    | none =>
      rintro r s₂ ⟨hr | ⟨-, hr⟩, rfl⟩
      · exact ⟨trivial, by simp, _, hr, hkeys⟩
      · exact absurd trivial hr

/-- The batch is in the spool. -/
def InSpool (b : Batch) (s : AgentState) : Prop :=
  ∃ n f queuedAt, s.dir.get? n = some f ∧ f.item = some { b with queuedAt := queuedAt }

/-- A spool of `maxBytes` with room for a batch: its item is not larger than that, and the
sequence numbers of the files are not used up. -/
def RoomFor (maxBytes : ℕ) (b : Batch) (s : AgentState) : Prop :=
  (∀ queuedAt, ({ b with queuedAt := queuedAt } : SpoolItem).toFile.size ≤ maxBytes) ∧
    ∀ n ∈ s.dir.keys, n + 1 < AgentState.nameLimit

theorem wp_put {maxBytes : ℕ} {b : Batch} {s : AgentState} (hbody : validBody b.body = true)
    (hroom : RoomFor maxBytes b s) :
    (put maxBytes b).wp (agentEffect True) (fun _ => True) (fun _ s' => InSpool b s') s := by
  obtain ⟨hsize, hlimit⟩ := hroom
  unfold put
  simp only [hbody, Bool.not_true, Bool.false_eq_true, if_false, call_bind, ret_bind, wp_call]
  intro queuedAt s₁ hE
  obtain rfl : s₁ = s := hE
  rw [if_neg (not_lt.mpr (hsize queuedAt))]
  have hfile : (SpoolItem.mk b queuedAt).toFile.item = some ⟨b, queuedAt⟩ := rfl
  have hfits : ((SpoolItem.mk b queuedAt).toFile.size : ℤ) ≤ maxBytes :=
    Int.ofNat_le.mpr (hsize queuedAt)
  generalize (SpoolItem.mk b queuedAt).toFile = file at hfile hfits ⊢
  refine ⟨trivial, ?_⟩
  rintro names s₂ ⟨hnames | ⟨-, hnames⟩, rfl⟩
  swap
  · exact absurd trivial hnames
  subst hnames
  refine ⟨trivial, ?_⟩
  have hdir : (s₁.recordIf (some s₁.dir.keys).isNone .interrupted) = s₁ := rfl
  simp only [hdir]
  -- room is made, and no file is added by that
  have hmake : (makeRoom maxBytes file.size s₁.dir.keys).wp (agentEffect True) (fun _ => True)
      (fun r s' => r = true ∧ ∀ k ∈ s'.dir.keys, k ∈ s₁.dir.keys) s₁ := by
    rw [makeRoom]
    refine wp_seq (wp_used fun n hn => hn) ?_
    rintro r s' ⟨rfl, rfl⟩
    exact wp_dropOldest hfits (s'.dir.sorted_keys.imp ne_of_lt) s' fun n hn => hn
  refine wp_seq hmake ?_
  rintro r s₃ ⟨rfl, hkeys⟩
  simp only [if_true]
  have hlimit' : ∀ n ∈ s₁.dir.keys, n < AgentState.nameLimit - 1 := fun n hn => by
    have := hlimit n hn
    omega
  refine wp_seq (wp_relist hlimit' fun n hn => hlimit' n (hkeys n hn)) ?_
  rintro r s₄ ⟨-, names', rfl, hnames'⟩
  -- the next sequence number is not used up
  have hseq : names'.getLast?.getD 0 + 1 < AgentState.nameLimit := by
    cases hlast : names'.getLast? with
    | none => exact (by decide : 0 + 1 < AgentState.nameLimit)
    | some last =>
      have := hnames' last (List.mem_of_getLast? hlast)
      rw [Option.getD_some]
      omega
  intro written s₅ hE
  cases written with
  | false => exact absurd trivial (hE.1 rfl)
  | true =>
    obtain rfl : s₅ = s₄ := hE.2
    refine ⟨trivial, ?_⟩
    intro renamed s₆ hE
    cases renamed with
    | false => exact absurd trivial hE.1
    | true =>
      obtain rfl : s₆ = s₅.store _ file := hE
      refine ⟨trivial, names'.getLast?.getD 0 + 1, file, queuedAt, ?_, hfile⟩
      rw [AgentState.store, if_pos hseq]
      exact SortedMap.get?_insert_self _ _ _

/-! ### A whole call -/

/-- What drains leaves the files of the spool or removes one, and answers no post of the
caller. -/
theorem drains_step {Healthy : Prop} {s s' : AgentState} {o : AgentOp} {r : o.Answer}
    (ho : o.Drains) (hE : agentEffect Healthy s o r s') :
    (∀ k ∈ s'.dir.keys, k ∈ s.dir.keys) ∧
      ∀ b, Untried .caller b s.log → Untried .caller b s'.log := by
  have hrecord : ∀ p, (∀ k ∈ (s.recordIf p .interrupted).dir.keys, k ∈ s.dir.keys) ∧
      ∀ b, Untried .caller b s.log → Untried .caller b (s.recordIf p .interrupted).log := fun p =>
    ⟨fun k hk => by rwa [dir_recordIf] at hk, fun b hb => untried_recordIf hb⟩
  -- the event of a file that goes is no answer
  have hdrop : ∀ n, (∀ k ∈ (s.drop n).dir.keys, k ∈ s.dir.keys) ∧
      ∀ b, Untried .caller b s.log → Untried .caller b (s.drop n).log := by
    refine fun n => ⟨fun k hk => (mem_keys_drop.mp hk).1, fun b hb r hr => ?_⟩
    rw [AgentState.drop] at hr
    split at hr
    · rcases List.mem_append.mp hr with hr | hr
      · exact hb r hr
      · exact nomatch List.mem_singleton.mp hr
    · exact hb r hr
  cases o with
  | ctxErr c => exact hE.2 ▸ hrecord _
  | wait c => exact hE ▸ hrecord _
  | postOnce c k b =>
    obtain rfl : c = .replay := by
      cases c with
      | caller => exact False.elim ho
      | replay => rfl
    -- a replay is no post of the caller
    obtain ⟨accepted, -, -, -, rfl⟩ := hE
    refine ⟨fun k hk => by simpa using hk, fun b' hb' => untried_recordIf fun r' hr' => ?_⟩
    rcases List.mem_append.mp hr' with hr' | hr'
    · have hposted : Untried .caller b' (s.record (.posted .replay b.batchID)).log := fun r hr =>
        (List.mem_append.mp hr).elim (hb' r) fun hr => nomatch List.mem_singleton.mp hr
      rw [AgentState.recordIf] at hr'
      split_ifs at hr'
      · rcases List.mem_append.mp hr' with hr' | hr'
        · exact hposted r' hr'
        · exact nomatch List.mem_singleton.mp hr'
      · exact hposted r' hr'
    · exact nomatch List.mem_singleton.mp hr'
  | now => exact (show s' = s from hE) ▸ hrecord false
  | names => exact hE.2 ▸ hrecord _
  | stat n => exact hE.2 ▸ hrecord false
  | readFile n => exact hE.2 ▸ hrecord _
  | renameBad n =>
    cases r with
    | false => exact hE.2 ▸ hrecord true
    | true => exact (show s' = s.drop n from hE) ▸ hdrop n
  | remove n =>
    cases r with
    | false => exact hE.2 ▸ hrecord _
    | true => exact (show s' = s.drop n from hE) ▸ hdrop n
  | writeFile n f => exact hE.2 ▸ hrecord false
  | rename n f => exact False.elim ho
  | start id => exact False.elim ho
  | cutOff => exact nomatch r

/-- A drain leaves files of the spool only, and answers no post of the caller. -/
theorem wp_drain_keys {Healthy : Prop} (fuel : ℕ) (s : AgentState) :
    (drain fuel).wp (agentEffect Healthy) (fun _ => True)
      (fun _ s' => (∀ k ∈ s'.dir.keys, k ∈ s.dir.keys) ∧
        ∀ b, Untried .caller b s.log → Untried .caller b s'.log) s :=
  wp_mono (fun _ _ => trivial) (fun _ _ => id)
    (wp_of_calls (calls_drain fuel) (fun _ _ _ _ ho hE hs =>
      ⟨fun k hk => hs.1 k ((drains_step ho hE).1 k hk),
        fun b hb => (drains_step ho hE).2 b (hs.2 b hb)⟩) ⟨fun _ hk => hk, fun _ hb => hb⟩)

/-- The hub accepted the batch, as the agent saw. -/
def Acknowledged (b : Batch) (s : AgentState) : Prop := .answered .caller b none ∈ s.log

/-- The batch was answered with a permanent status: 300 to 499, but not 429. -/
def Rejected (b : Batch) (s : AgentState) : Prop :=
  ∃ code, .answered .caller b (some (.status code)) ∈ s.log ∧ 300 ≤ code ∧ code < 500 ∧ code ≠ 429

/-- The caller's context was cancelled before the first attempt or during an attempt. -/
def Cancelled (b : Batch) (err : Option PostErr) (s : AgentState) : Prop :=
  err = some .canceled ∧
    (.answered .caller b (some .canceled) ∈ s.log ∨ Untried .caller b s.log)

theorem wp_sendBatch {maxBytes fuel : ℕ} {b : Batch} {s : AgentState}
    (hbody : validBody b.body = true) (hroom : RoomFor maxBytes b s)
    (huntried : Untried .caller b s.log) :
    (sendBatch fuel (some maxBytes) b).wp (agentEffect True) (fun _ => True)
      (fun err s' => Acknowledged b s' ∨ Rejected b s' ∨ InSpool b s' ∨ Cancelled b err s') s := by
  unfold sendBatch
  simp only [Option.isSome_some, if_true]
  refine wp_seq (wp_drain_keys fuel s) ?_
  rintro _ s₁ ⟨hkeys, hnone⟩
  refine wp_seq (wp_postLoop ⟨rfl, hnone b huntried⟩) ?_
  rintro err s₂ ⟨hdir, hshown⟩
  have hroom₂ : RoomFor maxBytes b s₂ := ⟨hroom.1, fun n hn => hroom.2 n (hkeys n (hdir ▸ hn))⟩
  have hput : ∀ err : Option PostErr, ((put maxBytes b >>= fun _ => pure err) : AgentM _).wp
      (agentEffect True) (fun _ => True) (fun err s' =>
        Acknowledged b s' ∨ Rejected b s' ∨ InSpool b s' ∨ Cancelled b err s') s₂ := fun err =>
    wp_seq (wp_put hbody hroom₂) fun _ _ h => .inr (.inr (.inl h))
  match err, hshown with
  | none, hshown => exact .inl hshown
  | some .canceled, hshown => exact .inr (.inr (.inr ⟨rfl, hshown⟩))
  | some .transport, _ => exact hput _
  | some (.status code), hshown =>
    by_cases hretry : retryable (some (.status code)) = true
    · simp only [hretry]
      exact hput _
    · have hfinal := Bool.not_eq_true _ ▸ hretry
      rw [retryable, Bool.or_eq_true, beq_iff_eq, decide_eq_true_iff, not_or, not_le] at hretry
      simp only [hfinal]
      exact .inr (.inl ⟨code, hshown.1, hshown.2, hretry.2, hretry.1⟩)

/-! ### Room in the spool -/

theorem length_goEscape_le (c : Char) : (goEscape.write c).length ≤ 6 := by
  rcases h : goShortEscape c with - | e
  · have hwrite : goEscape.write c =
        if isControl c || goLongEscape c then '\\' :: 'u' :: hexFour c.toNat else [c] := by
      simp only [goEscape, Escape.of, h]
    rw [hwrite]
    split_ifs
    · exact le_of_eq rfl
    · exact Nat.one_le_ofNat
  · have hwrite : goEscape.write c = ['\\', e] := by simp only [goEscape, Escape.of, h]
    rw [hwrite]
    exact Nat.le_of_ble_eq_true rfl

/-- A written instant is short. -/
theorem length_format_le (t : Time) : t.format.toList.length ≤ 30 := by
  have hfrac : t.fraction.length ≤ 9 := by
    have := congrArg List.length (trimZeros_append_replicate (pad 9 t.nsec))
    rw [List.length_append, length_pad] at this
    rw [Time.fraction]
    omega
  rw [Time.format, String.toList_ofList, List.length_append, Time.length_secondText]
  rcases h : t.fraction with - | ⟨d, rest⟩
  · decide
  · rw [h, List.length_cons] at hfrac
    rw [Time.fractionText, List.length_cons, List.length_append, List.length_cons,
      List.length_singleton]
    omega

theorem byteLength_ofList_append (l l' : List Char) : byteLength (String.ofList (l ++ l')) =
    byteLength (String.ofList l) + byteLength (String.ofList l') := by
  simp only [byteLength, String.toList_ofList, List.map_append, List.sum_append]

theorem byteLength_ofList_le (l : List Char) : byteLength (String.ofList l) ≤ 4 * l.length := by
  rw [byteLength, String.toList_ofList, mul_comm, ← List.length_map Char.utf8Size]
  refine List.sum_le_card_nsmul _ _ fun n hn => ?_
  obtain ⟨c, -, rfl⟩ := List.mem_map.mp hn
  exact c.utf8Size_le_four

theorem renderMembers_append (E : Escape) (l l' : List (String × Json)) :
    Json.renderMembers E (l ++ l') = Json.renderMembers E l ++ Json.renderMembers E l' := by
  induction l with
  | nil => rfl
  | cons e l ih => simp only [List.cons_append, Json.renderMembers, ih, List.append_assoc]

/-- The time that an item was queued at adds little to its size. -/
theorem size_toFile_le (b : Batch) (t t' : Time) :
    (SpoolItem.mk b t).toFile.size ≤ (SpoolItem.mk b t').toFile.size + 1000 := by
  obtain ⟨pre, post, h⟩ : ∃ pre post : List Char, ∀ t,
      (SpoolItem.mk b t).toJson.render goEscape =
        pre ++ (goEscape.quote (Time.format t) ++ post) := by
    refine ⟨'{' :: (goEscape.quote "path" ++ ':' :: (goEscape.quote b.path ++
      (Json.renderMembers goEscape
        (if b.batchID = "" then [] else [("batch_id", .str b.batchID)]) ++
        ',' :: (goEscape.quote "body" ++ ':' :: (b.body.render goEscape ++
          ',' :: (goEscape.quote "queued_at" ++ [':'])))))), ['}'], fun t => ?_⟩
    simp only [SpoolItem.toJson, List.cons_append, List.nil_append, Json.render,
      renderMembers_append, Json.renderMembers, List.append_assoc, List.append_nil]
  have hquote : ∀ t : Time, byteLength (String.ofList (goEscape.quote t.format)) ≤ 1000 := by
    intro t
    have hlen : (goEscape.quote t.format).length ≤ 6 * 30 + 2 := by
      rw [Escape.quote, List.length_cons, List.length_append, List.length_flatMap]
      have hsum : (t.format.toList.map fun c => (goEscape.write c).length).sum ≤
          (t.format.toList.map fun c => (goEscape.write c).length).length * 6 :=
        List.sum_le_card_nsmul _ _ fun n hn => by
          obtain ⟨c, -, rfl⟩ := List.mem_map.mp hn
          exact length_goEscape_le c
      have := length_format_le t
      rw [List.length_map] at hsum
      rw [List.length_singleton]
      omega
    have := byteLength_ofList_le (goEscape.quote t.format)
    omega
  have := hquote t
  simp only [SpoolItem.toFile, h, byteLength_ofList_append]
  omega

/-- An empty spool has room for a batch whose item is well below its size. -/
theorem roomFor_empty {maxBytes : ℕ} {b : Batch} {t : Time} {log : List AgentEvent}
    (h : (SpoolItem.mk b t).toFile.size + 1000 ≤ maxBytes) : RoomFor maxBytes b ⟨.empty, log⟩ :=
  ⟨fun t' => (size_toFile_le b t' t).trans h, fun _ hn => absurd hn List.not_mem_nil⟩

/-! ### The result -/

/-- **No batch is lost.** When `sendBatch` returns, the hub acknowledged the batch or rejected
it, or the batch is in the spool, unless the caller cancelled before the first attempt or during
one. -/
theorem settled_of_sendBatch {maxBytes fuel : ℕ} {b : Batch} {dir : SortedMap ℕ SpoolFile}
    {err : Option PostErr} {s : AgentState} (hbody : validBody b.body = true)
    (hroom : RoomFor maxBytes b ⟨dir, []⟩)
    (hrun : Steps (agentEffect True) (sendBatch fuel (some maxBytes) b, ⟨dir, []⟩) (.ret err, s)) :
    Acknowledged b s ∨ Rejected b s ∨ InSpool b s ∨ Cancelled b err s :=
  wp_of_returns (Q := fun err s => Acknowledged b s ∨ Rejected b s ∨ InSpool b s ∨
    Cancelled b err s) trivial (wp_sendBatch hbody hroom fun _ => List.not_mem_nil) hrun

/-- A batch of metrics. -/
def sampleBatch : Batch where
  path := "/api/v1/metrics/batch"
  batchID := "b1"
  body := .arr [.obj [("metric_name", .str "cpu")]]

theorem roomFor_sampleBatch : RoomFor 2000 sampleBatch ⟨.empty, []⟩ :=
  roomFor_empty (t := ⟨0⟩) (by decide +kernel)

/-- A batch that the hub answers with 503 five times. -/
theorem settled_of_sendBatch_unavailable : ∃ s : AgentState,
    Steps (agentEffect True) (sendBatch 2 (some 2000) sampleBatch, ⟨.empty, []⟩)
      (.ret (some (.status 503)), s) ∧
      (Acknowledged sampleBatch s ∨ Rejected sampleBatch s ∨ InSpool sampleBatch s ∨
        Cancelled sampleBatch (some (.status 503)) s) := by
  have hreplay : ((sendBatch 2 (some 2000) sampleBatch).replay
      (scripted none (fun _ => some (.status 503)) ⟨0⟩) ⟨.empty, []⟩).map Prod.fst =
        some (some (.status 503)) := by decide +kernel
  obtain ⟨⟨err, s⟩, hrun, rfl⟩ := Option.map_eq_some_iff.mp hreplay
  have hsteps := steps_of_replay (E := agentEffect True) (agentEffect_of_scripted
    fun _ => ⟨by decide, fun code h => by cases h; decide⟩) hrun
  exact ⟨s, hsteps, settled_of_sendBatch (by decide +kernel) roomFor_sampleBatch hsteps⟩

/-- When the caller's context is cancelled already, the batch is neither posted nor put into the
spool. -/
theorem cancelled_batch_lost : ¬ ∀ (maxBytes fuel : ℕ) (b : Batch) (dir : SortedMap ℕ SpoolFile)
    (err : Option PostErr) (s : AgentState), validBody b.body = true →
      RoomFor maxBytes b ⟨dir, []⟩ →
      Steps (agentEffect True) (sendBatch fuel (some maxBytes) b, ⟨dir, []⟩) (.ret err, s) →
        Acknowledged b s ∨ Rejected b s ∨ InSpool b s := by
  intro h
  have hsteps : Steps (agentEffect True) (sendBatch 2 (some 2000) sampleBatch, ⟨.empty, []⟩)
      (.ret (some .canceled), ⟨.empty, [.interrupted, .interrupted]⟩) := by
    have hrun : (sendBatch 2 (some 2000) sampleBatch).replay
        (scripted (some .canceled) (fun _ => none) ⟨0⟩) ⟨.empty, []⟩ =
          some (some .canceled, ⟨.empty, [.interrupted, .interrupted]⟩) := rfl
    exact steps_of_replay (agentEffect_of_scripted fun b => by simp) hrun
  rcases h _ _ _ _ _ _ (by decide +kernel) roomFor_sampleBatch hsteps with h | ⟨code, h, -⟩ | h
  · simp [Acknowledged] at h
  · simp at h
  · obtain ⟨n, f, queuedAt, h, -⟩ := h
    exact nomatch h

end Argus
