import Mathlib.Data.List.Induction
import Mathlib.Data.List.Nodup
import Mathlib.Order.Lattice

/-!
# Readers that resume by time

A stream of records, each with a time, is read in sessions. A session gets, in order, the records
of the stream that are not older than its start, and is cut off somewhere. The records that are
wanted are emitted as they are passed.

`exactlyOnce_iff` says when every wanted record is emitted once although the reader only remembers
times: a new session starts after the times of all that has been emitted, unless it comes to
nothing, and not after the time of anything else.
-/

namespace Foundations

/-- A session of a reader: its start, and the records that it passed. -/
structure Session (ι γ : Type) where
  since : γ
  passed : List ι

namespace Session

variable {ι γ : Type}

section

variable (wanted : ι → Bool)

/-- What a session emits. -/
def emitted (s : Session ι γ) : List ι := s.passed.filter wanted

/-- What some sessions emit, one after the other. -/
def emittedAll (ss : List (Session ι γ)) : List ι := ss.flatMap (emitted wanted)

end

section

variable {wanted : ι → Bool}

theorem emittedAll_concat (ss : List (Session ι γ)) (s : Session ι γ) :
    emittedAll wanted (ss ++ [s]) = emittedAll wanted ss ++ emitted wanted s := by
  rw [emittedAll, List.flatMap_append, List.flatMap_singleton, emittedAll]

/-- What is emitted in two places is emitted twice. -/
theorem two_le_count [BEq ι] [LawfulBEq ι] {before after : List (Session ι γ)} {s : Session ι γ}
    {i : ι} (hbefore : i ∈ emittedAll wanted before) (hs : i ∈ s.emitted wanted) :
    2 ≤ (emittedAll wanted (before ++ s :: after)).count i := by
  have hone : 1 ≤ (emittedAll wanted before).count i := List.one_le_count_iff.mpr hbefore
  have htwo : 1 ≤ (s.emitted wanted).count i := List.one_le_count_iff.mpr hs
  rw [emittedAll, List.flatMap_append, List.flatMap_cons, List.count_append, List.count_append]
  rw [emittedAll] at hone
  omega

end

variable [LinearOrder γ] (time : ι → γ) (wanted : ι → Bool) (stream : List ι)

/-- The records that a session may get. -/
def offered (s : Session ι γ) : List ι := stream.filter fun i => s.since ≤ time i

/-- A session goes on where the sessions before it stopped, for a reader that began at `start`. -/
structure Seamless (start : γ) (before : List (Session ι γ)) (s : Session ι γ) : Prop where
  complete : ∀ i ∈ stream, wanted i = true → start ≤ time i → time i < s.since →
    i ∈ emittedAll wanted before
  fresh : emitted wanted s ≠ [] → ∀ i ∈ emittedAll wanted before, time i < s.since

variable {time wanted stream} {start : γ} {s : Session ι γ} {ss : List (Session ι γ)}

theorem mem_emitted {i : ι} (hs : s.passed <+: s.offered time stream)
    (hi : i ∈ s.emitted wanted) : i ∈ stream ∧ wanted i = true ∧ s.since ≤ time i := by
  obtain ⟨hpassed, hwanted⟩ := List.mem_filter.mp hi
  obtain ⟨hmem, htime⟩ := List.mem_filter.mp (hs.subset hpassed)
  exact ⟨hmem, hwanted, of_decide_eq_true htime⟩

theorem mem_emittedAll {i : ι} (hss : ∀ s ∈ ss, s.passed <+: s.offered time stream)
    (hi : i ∈ emittedAll wanted ss) : ∃ s ∈ ss, i ∈ s.emitted wanted ∧ i ∈ stream ∧
      wanted i = true ∧ s.since ≤ time i := by
  obtain ⟨s, hs, hmem⟩ := List.mem_flatMap.mp hi
  exact ⟨s, hs, hmem, mem_emitted (hss s hs) hmem⟩

/-! ### Enough -/

/-- When every session is seamless nothing is emitted twice. -/
theorem nodup_emittedAll (hstream : stream.Nodup)
    (hss : ∀ s ∈ ss, s.passed <+: s.offered time stream)
    (h : ∀ before s after, ss = before ++ s :: after → Seamless time wanted stream start before s) :
    (emittedAll wanted ss).Nodup := by
  induction ss using List.reverseRecOn with
  | nil => exact List.nodup_nil
  | append_singleton ss s ih =>
    have hs : s.passed <+: s.offered time stream := hss s (List.mem_append_right _ (by simp))
    rw [emittedAll_concat, List.nodup_append]
    refine ⟨ih (fun s hs => hss s (List.mem_append_left _ hs)) fun before s' after heq =>
      h before s' (after ++ [s]) (by rw [heq]; simp), ?_, ?_⟩
    · exact ((hstream.filter _).sublist hs.sublist).filter _
    · rintro i hi j hj rfl
      -- what is emitted again has a time before and after the start of the session
      have hlt := (h ss s [] rfl).fresh (List.ne_nil_of_mem hj) i hi
      exact absurd (mem_emitted hs hj).2.2 (not_le.mpr hlt)

/-- A session that passes all it is offered, after others and seamless, leaves nothing out. -/
theorem mem_emittedAll_of_seamless (h : Seamless time wanted stream start ss s)
    (hs : s.passed = s.offered time stream) {i : ι} (hi : i ∈ stream) (hwanted : wanted i = true)
    (hstart : start ≤ time i) : i ∈ emittedAll wanted (ss ++ [s]) := by
  rw [emittedAll_concat, List.mem_append]
  rcases lt_or_ge (time i) s.since with hlt | hge
  · exact .inl (h.complete i hi hwanted hstart hlt)
  · refine .inr (List.mem_filter.mpr ⟨?_, hwanted⟩)
    rw [hs]
    exact List.mem_filter.mpr ⟨hi, decide_eq_true hge⟩

/-! ### Needed -/

section Needed

variable [BEq ι] [LawfulBEq ι] {before after : List (Session ι γ)}

/-- When every wanted record is emitted once each session is seamless, for starts that do not go
back. -/
theorem seamless_of_count_eq_one
    (hss : ∀ s' ∈ before ++ s :: after, s'.passed <+: s'.offered time stream)
    (hstart : ∀ s' ∈ before ++ s :: after, start ≤ s'.since)
    (hsorted : (before ++ s :: after).Pairwise fun s₁ s₂ => s₁.since ≤ s₂.since)
    (h : ∀ i ∈ stream, wanted i = true → start ≤ time i →
      (emittedAll wanted (before ++ s :: after)).count i = 1) :
    Seamless time wanted stream start before s where
  complete i hi hwanted hle hlt := by
    have hmem : i ∈ emittedAll wanted (before ++ s :: after) :=
      List.one_le_count_iff.mp (Nat.le_of_eq (h i hi hwanted hle).symm)
    rw [emittedAll, List.flatMap_append] at hmem
    rcases List.mem_append.mp hmem with hmem | hmem
    · exact hmem
    · -- a later session starts after the time of the record
      obtain ⟨s', hs', -, -, -, hsince⟩ :=
        mem_emittedAll (fun s' hs' => hss s' (List.mem_append_right _ hs')) hmem
      have hle' : s.since ≤ s'.since := by
        rcases List.mem_cons.mp hs' with rfl | hs'
        · exact le_refl _
        · exact List.rel_of_pairwise_cons (List.pairwise_append.mp hsorted).2.1 hs'
      exact absurd (hle'.trans hsince) (not_le.mpr hlt)
  fresh hne i hi := by
    by_contra hge
    have hge := not_lt.mp hge
    obtain ⟨j, hj⟩ := List.exists_mem_of_ne_nil _ hne
    obtain ⟨s', hs', hmem, histream, hiwanted, hsince⟩ :=
      mem_emittedAll (fun s' hs' => hss s' (List.mem_append_left _ hs')) hi
    have hs : s ∈ before ++ s :: after := List.mem_append_right _ List.mem_cons_self
    have hsorted' : s'.since ≤ s.since :=
      (List.pairwise_append.mp hsorted).2.2 s' hs' s List.mem_cons_self
    obtain ⟨hjstream, hjwanted, hjsince⟩ := mem_emitted (hss s hs) hj
    -- of the beginnings of the stream that the two sessions read, one is part of the other
    obtain ⟨read, hread, hpassed⟩ := List.prefix_filter_iff.mp (hss s hs)
    obtain ⟨read', hread', hpassed'⟩ :=
      List.prefix_filter_iff.mp (hss s' (List.mem_append_left _ hs'))
    rcases List.prefix_or_prefix_of_prefix hread hread' with hpre | hpre
    · -- the record that is emitted now was passed before
      have hagain : j ∈ s'.emitted wanted := by
        refine List.mem_filter.mpr ⟨?_, hjwanted⟩
        have hjread := (List.mem_filter.mp (hpassed ▸ (List.mem_filter.mp hj).1)).1
        rw [hpassed']
        exact List.mem_filter.mpr ⟨hpre.subset hjread, decide_eq_true (hsorted'.trans hjsince)⟩
      have htwo : 2 ≤ (emittedAll wanted (before ++ s :: after)).count j :=
        two_le_count (List.mem_flatMap.mpr ⟨s', hs', hagain⟩) hj
      have hone := h j hjstream hjwanted ((hstart s hs).trans hjsince)
      omega
    · -- the record that was emitted before is passed now
      have hagain : i ∈ s.emitted wanted := by
        refine List.mem_filter.mpr ⟨?_, hiwanted⟩
        have hiread := (List.mem_filter.mp (hpassed' ▸ (List.mem_filter.mp hmem).1)).1
        rw [hpassed]
        exact List.mem_filter.mpr ⟨hpre.subset hiread, decide_eq_true hge⟩
      have htwo : 2 ≤ (emittedAll wanted (before ++ s :: after)).count i :=
        two_le_count hi hagain
      have hone := h i histream hiwanted ((hstart s hs).trans hge)
      omega

end Needed

/-- **Exactly once.** For starts that do not go back and a last session that passes all it is
offered, every wanted record is emitted once if and only if every session is seamless. -/
theorem exactlyOnce_iff [BEq ι] [LawfulBEq ι] (hstream : stream.Nodup)
    (hss : ∀ s' ∈ ss ++ [s], s'.passed <+: s'.offered time stream)
    (hstart : ∀ s' ∈ ss ++ [s], start ≤ s'.since)
    (hsorted : (ss ++ [s]).Pairwise fun s₁ s₂ => s₁.since ≤ s₂.since)
    (hlast : s.passed = s.offered time stream) :
    (∀ i ∈ stream, wanted i = true → start ≤ time i →
      (emittedAll wanted (ss ++ [s])).count i = 1) ↔
    ∀ before s' after, ss ++ [s] = before ++ s' :: after →
      Seamless time wanted stream start before s' := by
  constructor
  · intro h before s' after heq
    rw [heq] at hss hstart hsorted h
    exact seamless_of_count_eq_one hss hstart hsorted h
  · intro h i hi hwanted hle
    refine List.count_eq_one_of_mem (nodup_emittedAll hstream hss h) ?_
    exact mem_emittedAll_of_seamless (h ss s [] rfl) hlast hi hwanted hle

end Session

end Foundations
