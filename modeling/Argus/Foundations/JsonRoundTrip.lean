import Argus.Foundations.Json

/-!
# Reading back what was written

`Json.parse_render`: in every style of escapes, the reader gives back the value that the
writer was given, as long as it is not nested too deeply. The proof follows the writer: a
string is read back character by character (`readString_write`), a number by the invariant it
carries, an array or an object element by element once its elements are (`Json.inductionOn`).
-/

namespace Foundations

/-! ### Strings -/

theorem Escape.write_ne_nil (E : Escape) (c : Char) : E.write c ≠ [] := by
  intro h
  have := E.reads c []
  rw [h] at this
  cases this

/-- A string is read back up to its closing mark. -/
theorem readString_write (E : Escape) {s : List Char} {n : ℕ} (rest : List Char)
    (hn : (s.flatMap E.write).length < n) :
    readString n (s.flatMap E.write ++ '"' :: rest) = some (s, rest) := by
  induction s generalizing n with
  | nil =>
    obtain ⟨n, rfl⟩ := Nat.exists_eq_succ_of_ne_zero (Nat.ne_of_gt (Nat.zero_lt_of_lt hn))
    rfl
  | cons c s ih =>
    obtain ⟨n, rfl⟩ := Nat.exists_eq_succ_of_ne_zero (Nat.ne_of_gt (Nat.zero_lt_of_lt hn))
    rw [List.flatMap_cons, List.length_append] at hn
    have hpos := List.length_pos_iff.mpr (E.write_ne_nil c)
    have ih := ih (n := n) (by omega)
    rw [List.flatMap_cons, List.append_assoc, readString]
    · rw [E.reads]
      simp only [Option.bind_eq_bind, Option.bind_some, ih]
    · exact fun r heq => E.opens c _ (congrArg List.head? heq)

theorem Escape.length_quote (E : Escape) (s : String) :
    (E.quote s).length = (s.toList.flatMap E.write).length + 2 := by
  rw [quote, List.length_cons, List.length_append, List.length_singleton]

/-! ### Numbers -/

/-- A number begins with a minus sign or a digit. -/
theorem Number.text_eq_cons (n : Number) : ∃ c t, n.text = c :: t ∧ (c = '-' ∨ c.isDigit) := by
  have h := n.reads [] (fun c hc => by cases hc)
  rw [List.append_nil] at h
  cases ht : n.text with
  | nil =>
    rw [ht] at h
    cases h
  | cons c t =>
    refine ⟨c, t, rfl, or_iff_not_imp_left.mpr fun hminus => ?_⟩
    rw [ht, readNumber, if_neg hminus] at h
    simp only [readMagnitude, Option.bind_eq_bind, Option.bind_eq_some_iff] at h
    obtain ⟨_, hwhole, -⟩ := h
    rw [readWhole] at hwhole
    split_ifs at hwhole with h0 hd
    · exact h0 ▸ rfl
    · exact hd

namespace Json

/-! ### White space -/

theorem skipSpace_cons {c : Char} {cs : List Char} (h : isSpace c = false) :
    skipSpace (c :: cs) = c :: cs := by
  rw [skipSpace, List.dropWhile_cons_of_neg (by simp [h])]

/-- A text that is written begins with neither white space nor a closing bracket. -/
theorem render_eq_cons (E : Escape) (v : Json) :
    ∃ c t, render E v = c :: t ∧ isSpace c = false ∧ c ≠ ']' := by
  cases v with
  | null => exact ⟨_, _, by rw [render], by decide⟩
  | bool b => cases b <;> exact ⟨_, _, by rw [render], by decide⟩
  | num n =>
    obtain ⟨c, t, hn, hc⟩ := n.text_eq_cons
    refine ⟨c, t, by rw [render, hn], ?_, ?_⟩
    · by_contra h
      simp only [isSpace, Bool.not_eq_false, Bool.or_eq_true, beq_iff_eq] at h
      rcases h with ((rfl | rfl) | rfl) | rfl <;> exact absurd hc (by decide)
    · rintro rfl
      exact absurd hc (by decide)
  | str s => exact ⟨_, _, by rw [render, Escape.quote], by decide⟩
  | arr l => cases l <;> exact ⟨_, _, by rw [render], by decide⟩
  | obj l => cases l <;> exact ⟨_, _, by rw [render], by decide⟩

theorem skipSpace_render (E : Escape) (v : Json) (rest : List Char) :
    skipSpace (render E v ++ rest) = render E v ++ rest := by
  obtain ⟨c, t, h, hc, -⟩ := render_eq_cons E v
  rw [h, List.cons_append, skipSpace_cons hc]

/-! ### Values -/

/-- Induction on a value, over the elements of arrays and the members of objects. -/
@[elab_as_elim]
theorem inductionOn {P : Json → Prop} (v : Json) (null : P null) (bool : ∀ b, P (bool b))
    (num : ∀ n, P (num n)) (str : ∀ s, P (str s)) (arr : ∀ l, (∀ x ∈ l, P x) → P (arr l))
    (obj : ∀ l, (∀ e ∈ l, P e.2) → P (obj l)) : P v :=
  @Json.rec P (fun l => ∀ x ∈ l, P x) (fun l => ∀ e ∈ l, P e.2) (fun e => P e.2)
    null bool num str arr obj (fun _ h => absurd h List.not_mem_nil)
    (fun _ _ hx hl _ h => (List.mem_cons.mp h).elim (fun e => e ▸ hx) (hl _))
    (fun _ h => absurd h List.not_mem_nil)
    (fun _ _ hx hl _ h => (List.mem_cons.mp h).elim (fun e => e ▸ hx) (hl _))
    (fun _ _ h => h) v

/-- What was written for a value is read as that value, whatever follows. -/
def ReadsBack (E : Escape) (v : Json) : Prop :=
  ∀ n d rest, (render E v).length ≤ n → v.depth ≤ d → Avoids continuesNumber rest →
    readValue n d (render E v ++ rest) = some (v, rest)

private theorem succ_of_render_le {E : Escape} {v : Json} {n : ℕ}
    (h : (render E v).length ≤ n) : ∃ m, n = m + 1 := by
  obtain ⟨c, t, hv, -⟩ := render_eq_cons E v
  rw [hv, List.length_cons] at h
  exact ⟨n - 1, by omega⟩

private theorem avoids_of_head {c : Char} {cs : List Char} (h : continuesNumber c = false) :
    Avoids continuesNumber (c :: cs) := by
  intro d hd
  obtain rfl : c = d := by simpa using hd
  exact h

/-- Elements that are read back one by one are read back as a list. -/
private theorem readElements_render {E : Escape} {rest : List Char} {d : ℕ} (l : List Json) :
    ∀ (x : Json) (n : ℕ), (∀ y ∈ x :: l, ReadsBack E y ∧ y.depth ≤ d) →
      (render E x).length + (renderElements E l).length + 1 ≤ n →
      readElements n d (render E x ++ (renderElements E l ++ ']' :: rest)) =
        some (x :: l, rest) := by
  induction l with
  | nil =>
    intro x n h hn
    obtain ⟨n, rfl⟩ : ∃ m, n = m + 1 := ⟨n - 1, by omega⟩
    obtain ⟨hx, hd⟩ := h x List.mem_cons_self
    rw [renderElements, List.nil_append, readElements,
      hx n d _ (by omega) hd (avoids_of_head (by decide))]
    rfl
  | cons y l ih =>
    intro x n h hn
    obtain ⟨n, rfl⟩ : ∃ m, n = m + 1 := ⟨n - 1, by omega⟩
    obtain ⟨hx, hd⟩ := h x List.mem_cons_self
    rw [renderElements, List.length_cons, List.length_append] at hn
    have ih := ih y n (fun z hz => h z (List.mem_cons_of_mem x hz)) (by omega)
    rw [renderElements, List.cons_append, readElements,
      hx n d _ (by omega) hd (avoids_of_head (by decide))]
    simp only [Option.bind_eq_bind, Option.bind_some,
      skipSpace_cons (show isSpace ',' = false by decide), List.append_assoc, ih]

/-- What `readMembers` does after a member: read on after a comma, or stop. -/
private def readMoreMembers (n d : ℕ) (e : String × Json) :
    List Char → Option (List (String × Json) × List Char)
  | ',' :: r => do
    let (l, r) ← readMembers n d r
    some (e :: l, r)
  | '}' :: r => some ([e], r)
  | _ => none

/-- Members whose values are read back are read back as a list. -/
private theorem readMembers_render {E : Escape} {rest : List Char} {d : ℕ}
    (l : List (String × Json)) :
    ∀ (k : String) (x : Json) (n : ℕ), (∀ e ∈ (k, x) :: l, ReadsBack E e.2 ∧ e.2.depth ≤ d) →
      (E.quote k).length + (render E x).length + (renderMembers E l).length + 2 ≤ n →
      readMembers n d (E.quote k ++ ':' :: (render E x ++ (renderMembers E l ++ '}' :: rest))) =
        some ((k, x) :: l, rest) := by
  -- the key, the colon and the value; what is left is a comma or the closing brace
  have step : ∀ (k : String) (x : Json) (n : ℕ) (r : List Char),
      ReadsBack E x → x.depth ≤ d → (E.quote k).length + (render E x).length ≤ n →
      Avoids continuesNumber r →
      readMembers (n + 1) d (E.quote k ++ ':' :: (render E x ++ r)) =
        readMoreMembers n d (k, x) (skipSpace r) := by
    intro k x n r hx hd hn hr
    rw [Escape.length_quote] at hn
    have hkey := @readString_write E k.toList n (':' :: (render E x ++ r)) (by omega)
    have hval := hx n d r (by omega) hd hr
    rw [readMembers, Escape.quote, List.cons_append, List.append_assoc,
      skipSpace_cons (by decide), skipWord, if_pos rfl, skipWord]
    simp only [Option.bind_eq_bind, Option.bind_some, List.cons_append, List.nil_append, hkey,
      skipSpace_cons (show isSpace ':' = false by decide), skipWord, if_pos, hval,
      String.ofList_toList]
    rfl
  induction l with
  | nil =>
    intro k x n h hn
    obtain ⟨n, rfl⟩ : ∃ m, n = m + 1 := ⟨n - 1, by omega⟩
    obtain ⟨hx, hd⟩ := h _ List.mem_cons_self
    rw [renderMembers, List.nil_append,
      step k x n _ hx hd (by omega) (avoids_of_head (by decide)), skipSpace_cons (by decide)]
    rfl
  | cons e l ih =>
    obtain ⟨k', y⟩ := e
    intro k x n h hn
    obtain ⟨n, rfl⟩ : ∃ m, n = m + 1 := ⟨n - 1, by omega⟩
    obtain ⟨hx, hd⟩ := h _ List.mem_cons_self
    rw [renderMembers, List.length_cons, List.length_append, List.length_cons,
      List.length_append] at hn
    have ih := ih k' y n (fun z hz => h z (List.mem_cons_of_mem _ hz)) (by omega)
    rw [renderMembers, List.cons_append, step k x n _ hx hd (by omega)
      (avoids_of_head (by decide)), skipSpace_cons (by decide)]
    simp only [readMoreMembers, List.append_assoc, List.cons_append, ih, Option.bind_eq_bind,
      Option.bind_some]

/-! ### Lists of texts -/

/-- Texts with a comma between any two. -/
def commaSeparated : List (List Char) → List Char
  | [] => []
  | x :: l => x ++ l.flatMap fun y => ',' :: y

/-- An array is its elements between brackets, a comma between any two. -/
theorem render_arr (E : Escape) (l : List Json) :
    render E (arr l) = '[' :: (commaSeparated (l.map (render E)) ++ [']']) := by
  have hrest : ∀ l : List Json,
      renderElements E l = (l.map (render E)).flatMap fun y => ',' :: y := by
    intro l
    induction l with
    | nil => rw [renderElements]; rfl
    | cons x l ih => rw [renderElements, ih, List.map_cons, List.flatMap_cons]; rfl
  cases l with
  | nil => rw [render]; rfl
  | cons x l => rw [render, hrest, List.map_cons, commaSeparated, List.append_assoc]

/-! ### Depths -/

theorem depthElements_le {l : List Json} {d : ℕ} (h : ∀ x ∈ l, x.depth ≤ d) :
    depthElements l ≤ d := by
  induction l with
  | nil => rw [depthElements]; exact Nat.zero_le d
  | cons x l ih =>
    obtain ⟨hx, hl⟩ := List.forall_mem_cons.mp h
    rw [depthElements]
    exact Nat.max_le.mpr ⟨hx, ih hl⟩

theorem depth_le_of_mem_elements {l : List Json} {d : ℕ} (h : depthElements l ≤ d) :
    ∀ x ∈ l, x.depth ≤ d := by
  induction l with
  | nil => exact fun x hx => absurd hx List.not_mem_nil
  | cons y l ih =>
    rw [depthElements, Nat.max_le] at h
    intro x hx
    rcases List.mem_cons.mp hx with rfl | hx
    · exact h.1
    · exact ih h.2 x hx

theorem depth_le_of_mem_members {l : List (String × Json)} {d : ℕ} (h : depthMembers l ≤ d) :
    ∀ e ∈ l, e.2.depth ≤ d := by
  induction l with
  | nil => exact fun e he => absurd he List.not_mem_nil
  | cons e l ih =>
    obtain ⟨k, y⟩ := e
    rw [depthMembers, Nat.max_le] at h
    intro e he
    rcases List.mem_cons.mp he with rfl | he
    · exact h.1
    · exact ih h.2 e he

/-! ### The round trip -/

private theorem readValue_number {cs r r' : List Char} {c : Char} {n d : ℕ} {m : Number}
    (hcs : skipSpace cs = c :: r) (hc : c = '-' ∨ c.isDigit)
    (h : readNumber (c :: r) = some (m.text, r')) :
    readValue (n + 1) d cs = some (num m, r') := by
  have hne : ∀ d : Char, d ≠ '-' → d.isDigit = false → c ≠ d := by
    rintro d hminus hd rfl
    rcases hc with hc | hc
    · exact hminus hc
    · rw [hd] at hc
      cases hc
  rw [readValue, hcs]
  simp only [if_neg (hne '"' (by decide) (by decide)), if_neg (hne '[' (by decide) (by decide)),
    if_neg (hne '{' (by decide) (by decide)), if_neg (hne 'n' (by decide) (by decide)),
    if_neg (hne 't' (by decide) (by decide)), if_neg (hne 'f' (by decide) (by decide))]
  split
  · rename_i hnone
    rw [hnone] at h
    cases h
  · rename_i t r'' hsome
    rw [hsome, Option.some.injEq, Prod.mk.injEq] at h
    obtain ⟨rfl, rfl⟩ := h
    rfl

private theorem readValue_array {E : Escape} {x : Json} {l : List Json} {n d : ℕ}
    {rest : List Char}
    (h : readElements n d (render E x ++ (renderElements E l ++ ']' :: rest)) =
      some (x :: l, rest)) :
    readValue (n + 1) (d + 1) (render E (arr (x :: l)) ++ rest) = some (arr (x :: l), rest) := by
  obtain ⟨c, t, hx, -, hc⟩ := render_eq_cons E x
  rw [readValue, skipSpace_render, render, List.cons_append, List.append_assoc, List.append_assoc,
    List.singleton_append]
  simp only [skipSpace_render, if_neg (show ¬ '[' = '"' by decide), if_pos]
  split
  · contradiction
  · rename_i heq
    rw [hx] at heq
    exact absurd (List.cons.inj heq).1 hc
  · rename_i hd _
    rw [← Nat.succ.inj hd, h]
    rfl

private theorem readValue_object {E : Escape} {k : String} {x : Json}
    {l : List (String × Json)} {n d : ℕ} {rest : List Char}
    (h : readMembers n d (E.quote k ++ ':' :: (render E x ++ (renderMembers E l ++ '}' :: rest))) =
      some ((k, x) :: l, rest)) :
    readValue (n + 1) (d + 1) (render E (obj ((k, x) :: l)) ++ rest) =
      some (obj ((k, x) :: l), rest) := by
  rw [readValue, skipSpace_render, render, List.cons_append, List.append_assoc, List.cons_append,
    List.append_assoc, List.append_assoc, List.singleton_append]
  rw [Escape.quote, List.cons_append] at h ⊢
  simp only [if_neg (show ¬ '{' = '"' by decide), if_neg (show ¬ '{' = '[' by decide), if_pos,
    skipSpace_cons (show isSpace '"' = false by decide)]
  exact congrArg (Option.map fun m => (obj m.1, m.2)) h

/-- **Every value is read back.** -/
theorem readsBack (E : Escape) (v : Json) : ReadsBack E v := by
  induction v using inductionOn with
  | null =>
    intro n d rest hn _ _
    obtain ⟨n, rfl⟩ := succ_of_render_le hn
    rw [readValue, skipSpace_render, render]
    rfl
  | bool b =>
    intro n d rest hn _ _
    obtain ⟨n, rfl⟩ := succ_of_render_le hn
    cases b <;> rw [readValue, skipSpace_render, render] <;> rfl
  | num m =>
    intro n d rest hn _ hrest
    obtain ⟨n, rfl⟩ := succ_of_render_le hn
    obtain ⟨c, t, hm, hc⟩ := m.text_eq_cons
    refine readValue_number (c := c) (r := t ++ rest) ?_ hc ?_
    · rw [skipSpace_render, render, hm, List.cons_append]
    · rw [← List.cons_append, ← hm, m.reads rest hrest]
  | str s =>
    intro n d rest hn _ _
    obtain ⟨n, rfl⟩ := succ_of_render_le hn
    rw [render, E.length_quote] at hn
    have hstr := @readString_write E s.toList n rest (by omega)
    rw [readValue, skipSpace_render, render, Escape.quote, List.cons_append, List.append_assoc]
    simp only [if_pos, List.cons_append, List.nil_append, hstr, Option.map_some,
      String.ofList_toList]
  | arr l ih =>
    intro n d rest hn hd _
    obtain ⟨n, rfl⟩ := succ_of_render_le hn
    rw [depth] at hd
    obtain ⟨d, rfl⟩ : ∃ d', d = d' + 1 := ⟨d - 1, by omega⟩
    cases l with
    | nil =>
      rw [readValue, skipSpace_render, render]
      rfl
    | cons x l =>
      have hdepth := depth_le_of_mem_elements (Nat.le_of_succ_le_succ hd)
      rw [render, List.length_cons, List.length_append, List.length_append,
        List.length_singleton] at hn
      have hl := @readElements_render E rest d l x n
        (fun y hy => ⟨ih y hy, hdepth y hy⟩) (by omega)
      exact readValue_array hl
  | obj l ih =>
    intro n d rest hn hd _
    obtain ⟨n, rfl⟩ := succ_of_render_le hn
    rw [depth] at hd
    obtain ⟨d, rfl⟩ : ∃ d', d = d' + 1 := ⟨d - 1, by omega⟩
    cases l with
    | nil =>
      rw [readValue, skipSpace_render, render]
      rfl
    | cons e l =>
      obtain ⟨k, x⟩ := e
      have hdepth := depth_le_of_mem_members (Nat.le_of_succ_le_succ hd)
      rw [render, List.length_cons, List.length_append, List.length_cons, List.length_append,
        List.length_append, List.length_singleton] at hn
      exact readValue_object (readMembers_render l k x n
        (fun e he => ⟨ih e he, hdepth e he⟩) (by omega))

/-- **Round trip.** A written value is read back, if it is not nested too deeply. -/
theorem parse_render (E : Escape) {v : Json} (hv : v.depth ≤ maxDepth) :
    parse (render E v) = some v := by
  have h := readsBack E v ((render E v).length + 1) maxDepth [] (by omega) hv
    (fun c hc => by cases hc)
  rw [List.append_nil] at h
  rw [parse, h]
  rfl

end Json

end Foundations
