import Argus.Store.Logs
import Mathlib.Data.Finset.Max

/-!
# The texts of a log search

The conditions of `logWhere` on the message and on the container of an entry: the query, one
container and a list of containers become patterns of `LIKE`, in which `%`, `_` and the backslash of
the user's text keep their meaning. A pattern that ends in a lone backslash is an error of the
store, as soon as a match gets there.

`literal_iff` says for which filters the conditions are the plain ones for every entry: that the
message contains the query, and that the last part of the entity is the container or among the
containers. `logWhere_of_plain` says what a search with such a filter then selects.
-/

namespace Argus

open Foundations

/-! ### Conditions -/

/-- The last part of `strings.Split(s, ":")`. -/
def lastPart (s : String) : String := String.ofList (s.toList.rtakeWhile (· != ':'))

/-- `message ILIKE ?`, if there is a query. -/
def queryWhere (rt : Runtime) (query message : String) : Option Bool :=
  if query = "" then some true
  else likeResult (rt.toLower ("%" ++ query ++ "%")) (rt.toLower message)

/-- `entity_uid LIKE ?` for a container. -/
def containerLike (container uid : String) : Option Bool := likeResult ("%:" ++ container) uid

/-- The condition on one container, if there is one. -/
def containerWhere (container uid : String) : Option Bool :=
  if container = "" then some true else containerLike container uid

/-- `entity_uid LIKE ? OR entity_uid LIKE ? OR ...`, from the left. -/
def anyContainerLike (uid : String) : List String → Option Bool
  | [] => some false
  | c :: containers =>
    (containerLike c uid).bind
      fun found => if found then some true else anyContainerLike uid containers

/-- The condition on a list of containers, if it is not empty. -/
def containersWhere (containers : List String) (uid : String) : Option Bool :=
  if containers = [] then some true else anyContainerLike uid containers

theorem like_of_likeResult {pattern text : String} {b : Bool}
    (h : likeResult pattern text = some b) : like pattern text = b := by
  rw [likeResult] at h
  split_ifs at h
  exact Option.some.inj h

/-- Where no pattern is an error these are the conditions of `logWhere`. -/
theorem logWhere_eq {rt : Runtime} {filter : LogSearchFilter} {r : LogRow} {q c cs : Bool}
    (hquery : queryWhere rt filter.query r.message = some q)
    (hcontainer : containerWhere filter.container r.entityUID = some c)
    (hcontainers : containersWhere filter.containers r.entityUID = some cs) :
    logWhere rt filter r =
      (inWindow filter.since filter.until_ r.ts && q &&
        (filter.entityUID == "" || r.entityUID == filter.entityUID) && c &&
        (filter.level == "" || filter.level == "all" || r.level == filter.level) &&
        (filter.topic == "" || filter.topic == "all" ||
          like (topicPattern filter.topic) r.fieldsJSON) &&
        (filter.traceID == "" || traceWhere rt filter.traceID r) && cs) := by
  have hq : (filter.query == "" || ilike rt ("%" ++ filter.query ++ "%") r.message) = q := by
    rw [queryWhere] at hquery
    split_ifs at hquery with hempty
    · rw [hempty, ← Option.some.inj hquery]
      rfl
    · rw [ilike, like_of_likeResult hquery, beq_eq_false_iff_ne.mpr hempty, Bool.false_or]
  have hc : (filter.container == "" || like ("%:" ++ filter.container) r.entityUID) = c := by
    rw [containerWhere] at hcontainer
    split_ifs at hcontainer with hempty
    · rw [hempty, ← Option.some.inj hcontainer]
      rfl
    · rw [like_of_likeResult hcontainer, beq_eq_false_iff_ne.mpr hempty, Bool.false_or]
  have hany : ∀ containers b, anyContainerLike r.entityUID containers = some b →
      (containers.any fun c => like ("%:" ++ c) r.entityUID) = b := by
    intro containers
    induction containers with
    | nil => exact fun b hb => Option.some.inj hb
    | cons d containers ih =>
      intro b hb
      obtain ⟨found, hfound, hb⟩ := Option.bind_eq_some_iff.mp hb
      rw [List.any_cons, like_of_likeResult hfound]
      cases found with
      | true => exact Option.some.inj hb
      | false => exact ih b hb
  have hcs : (filter.containers.isEmpty ||
      filter.containers.any fun c => like ("%:" ++ c) r.entityUID) = cs := by
    rw [containersWhere] at hcontainers
    split_ifs at hcontainers with hempty
    · rw [hempty, ← Option.some.inj hcontainers]
      rfl
    · rw [hany _ _ hcontainers, List.isEmpty_eq_false_iff.mpr hempty, Bool.false_or]
  rw [logWhere, hq, hc, hcs]

/-! ### The last part of an entity -/

theorem lastPart_append {before name : List Char} (h : ':' ∉ name) :
    lastPart (String.ofList (before ++ ':' :: name)) = String.ofList name := by
  have htake : (name.reverse ++ ':' :: before.reverse).takeWhile (· != ':') = name.reverse := by
    rw [List.takeWhile_append_of_pos, List.takeWhile_cons_of_neg (by simp), List.append_nil]
    intro c hc
    exact bne_iff_ne.mpr fun heq => h (heq ▸ List.mem_reverse.mp hc)
  rw [lastPart, String.toList_ofList, List.rtakeWhile, List.reverse_append, List.reverse_cons,
    List.append_assoc, List.singleton_append, htake, List.reverse_reverse]

/-- A text with a colon is what is before the last one, and the last part. -/
theorem exists_lastPart {s : String} (h : ':' ∈ s.toList) :
    ∃ before, s.toList = before ++ ':' :: (lastPart s).toList ∧ ':' ∉ (lastPart s).toList := by
  obtain ⟨after, before, hsplit, hafter⟩ :=
    List.eq_append_cons_of_mem (List.mem_reverse.mpr h)
  have hs : s.toList = before.reverse ++ ':' :: after.reverse := by
    rw [← List.reverse_reverse s.toList, hsplit]
    simp
  have hname : ':' ∉ after.reverse := fun hmem => hafter (List.mem_reverse.mp hmem)
  have hlast : (lastPart s).toList = after.reverse := by
    rw [← String.ofList_toList (s := s), hs, lastPart_append hname, String.toList_ofList]
  exact ⟨before.reverse, by rw [hlast, hs], by rwa [hlast]⟩

/-- A text without a colon is its own last part. -/
theorem lastPart_of_notMem {s : String} (h : ':' ∉ s.toList) : lastPart s = s := by
  rw [lastPart, List.rtakeWhile_eq_self_iff.mpr, String.ofList_toList]
  intro c hc
  exact bne_iff_ne.mpr fun heq => h (heq ▸ hc)

theorem colon_notMem_lastPart (s : String) : ':' ∉ (lastPart s).toList := by
  by_cases h : ':' ∈ s.toList
  · obtain ⟨-, -, hlast⟩ := exists_lastPart h
    exact hlast
  · rwa [lastPart_of_notMem h]

/-- A name without a colon ends a text after a colon when it is the last part. -/
theorem colon_suffix_iff {name : String} {s : String} (hname : ':' ∉ name.toList) :
    (':' :: name.toList) <:+ s.toList ↔ ':' ∈ s.toList ∧ lastPart s = name := by
  constructor
  · rintro ⟨before, hs⟩
    refine ⟨hs ▸ List.mem_append_right _ List.mem_cons_self, ?_⟩
    rw [← String.ofList_toList (s := s), ← hs, lastPart_append hname, String.ofList_toList]
  · rintro ⟨hcolon, rfl⟩
    obtain ⟨before, hs, -⟩ := exists_lastPart hcolon
    exact ⟨before, hs.symm⟩

theorem colon_toList (container : String) :
    ("%:" ++ container).toList = '%' :: ':' :: container.toList := by
  rw [String.toList_append]
  rfl

/-- Only a pattern that ends in a backslash fails. -/
theorem likeFails_colon {container : String} (h : endsInEscape container.toList = false)
    (uid : String) : likeFails ("%:" ++ container) uid = false := by
  have hend : endsInEscape ('%' :: ':' :: container.toList) = false := h
  rw [likeFails, colon_toList, hend, Bool.false_and]

/-- What a container's pattern matches comes after a colon. -/
theorem like_colon_iff {tokens : List LikeToken} {text : List Char} :
    likeMatch (.any :: .char ':' :: tokens) text = true ↔
      ∃ t, (':' :: t) <:+ text ∧ likeMatch tokens t = true := by
  rw [likeMatch_any]
  constructor
  · rintro ⟨t, ht, hmatch⟩
    obtain ⟨rest, rfl, hrest⟩ := likeMatch_char_append (s := [':']).mp hmatch
    exact ⟨rest, ht, hrest⟩
  · rintro ⟨t, ht, hmatch⟩
    exact ⟨':' :: t, ht, likeMatch_char_append (s := [':']).mpr ⟨t, rfl, hmatch⟩⟩

theorem containerLike_of_match {container uid : String} {t : List Char}
    (ht : (':' :: t) <:+ uid.toList) (h : likeMatch (likeTokens container.toList) t = true) :
    containerLike container uid ≠ some false := by
  have hlike : like ("%:" ++ container) uid = true := by
    rw [like, colon_toList]
    exact like_colon_iff.mpr ⟨t, ht, h⟩
  rw [containerLike, likeResult, hlike]
  split_ifs <;> simp

/-- A pattern that ends in a backslash is an error where the rest of it is found before the end. -/
theorem containerLike_of_fails {container uid : String} {t : List Char}
    (hend : endsInEscape container.toList = true) (ht : (':' :: t) <:+ uid.toList)
    (h : likeMatch ((likeTokens container.toList).dropLast ++ [.one, .any]) t = true) :
    containerLike container uid = none := by
  have hfails : likeFails ("%:" ++ container) uid = true := by
    rw [likeFails, colon_toList, Bool.and_eq_true, Bool.or_eq_true]
    refine ⟨hend, .inl ?_⟩
    have hne := likeTokens_ne_nil hend
    change likeMatch ((.any :: .char ':' :: likeTokens container.toList).dropLast ++ _) _ = true
    rw [List.dropLast_cons_of_ne_nil (List.cons_ne_nil _ _), List.dropLast_cons_of_ne_nil hne]
    exact like_colon_iff.mpr ⟨t, ht, h⟩
  rw [containerLike, likeResult, if_pos hfails]

theorem exists_match_of_containerLike {container uid : String}
    (h : containerLike container uid = some true) :
    ∃ t, (':' :: t) <:+ uid.toList ∧ likeMatch (likeTokens container.toList) t = true := by
  have hlike := like_of_likeResult h
  rw [like, colon_toList] at hlike
  exact like_colon_iff.mp hlike

/-- The filling of a container's pattern after a colon is not passed over. -/
theorem containerLike_fill (z : Char) (container before : String) :
    containerLike container (before ++ ":" ++ String.ofList (fill z z container.toList)) ≠
      some false := by
  have hsuffix : (':' :: fill z z container.toList) <:+
      (before ++ ":" ++ String.ofList (fill z z container.toList)).toList := by
    rw [String.toList_append, String.toList_append, List.append_assoc, String.toList_ofList,
      String.toList_ofList]
    exact List.suffix_append _ _
  cases hend : endsInEscape container.toList with
  | false => exact containerLike_of_match hsuffix (likeMatch_fill z z hend)
  | true =>
    rw [containerLike_of_fails hend hsuffix (likeMatch_fill_dropLast z z hend)]
    simp

/-- A plain container is found where its name ends the entity after a colon. -/
theorem containerLike_of_plain {container : String}
    (h : ∀ c ∈ container.toList, isPlain c = true) (uid : String) :
    containerLike container uid = some (decide ((':' :: container.toList) <:+ uid.toList)) := by
  rw [containerLike, likeResult, likeFails_colon (endsInEscape_eq_false h), if_neg (by decide),
    Option.some.injEq, Bool.eq_iff_iff, decide_eq_true_iff, like, colon_toList]
  have htokens : likeTokens container.toList = container.toList.map .char := by
    have := likeTokens_append h []
    rwa [List.append_nil, likeTokens, List.append_nil] at this
  have hexact : ∀ t, likeMatch (likeTokens container.toList) t = true ↔ t = container.toList := by
    intro t
    rw [htokens, ← List.append_nil (container.toList.map _), likeMatch_char_append]
    constructor
    · rintro ⟨rest, rfl, hrest⟩
      rw [List.isEmpty_iff.mp hrest, List.append_nil]
    · rintro rfl
      exact ⟨[], (List.append_nil _).symm, rfl⟩
  refine like_colon_iff.trans ?_
  simp only [hexact, exists_eq_right]

/-! ### Literal filters -/

/-- The conditions select an entry by the query exactly when the message contains it, whatever the
case, by the container exactly when it is the last part of the entity, and by the containers exactly
when the last part is one of them. -/
structure Literal (rt : Runtime) (filter : LogSearchFilter) (r : LogRow) : Prop where
  query : queryWhere rt filter.query r.message =
    some (contains (rt.toLower r.message) (rt.toLower filter.query))
  container : containerWhere filter.container r.entityUID =
    some (filter.container == "" || lastPart r.entityUID == filter.container)
  containers : containersWhere filter.containers r.entityUID =
    some (filter.containers.isEmpty || filter.containers.contains (lastPart r.entityUID))

/-- What a pattern has after its last colon stands for a name of a list. -/
def EndsInName (containers : List String) (pattern : String) : Prop :=
  endsInEscape pattern.toList = false ∧ ∃ before, ∃ name ∈ containers, ':' ∉ name.toList ∧
    likeTokens pattern.toList = before ++ .char ':' :: name.toList.map .char

/-- The texts of a filter have no special characters, and the names no colon. A name with a colon
in the list does no harm if what it has after the last one is, as a pattern, a name of the list. -/
structure PlainFilter (rt : Runtime) (filter : LogSearchFilter) : Prop where
  query : ∀ c ∈ (rt.toLower filter.query).toList, isPlain c = true
  container : ∀ c ∈ filter.container.toList, isPlain c = true ∧ c ≠ ':'
  containers : ∀ name ∈ filter.containers, ':' ∉ name.toList → ∀ c ∈ name.toList, isPlain c = true
  colons : ∀ name ∈ filter.containers, ':' ∈ name.toList → EndsInName filter.containers name

/-- An entity has a colon, or is none of the names as a whole. -/
def Separated (filter : LogSearchFilter) (uid : String) : Prop :=
  ':' ∈ uid.toList ∨ (filter.container = "" ∨ uid ≠ filter.container) ∧ uid ∉ filter.containers

/-! #### The query -/

/-- Whatever the query is, its pattern makes no error. -/
theorem queryWhere_eq {rt : Runtime} (hrt : rt.LowersAscii) {query : String} (hquery : query ≠ "")
    (message : String) : queryWhere rt query message =
      some (like (containing (rt.toLower query)) (rt.toLower message)) := by
  have hpercent : rt.lower '%' = '%' := (hrt '%' (by decide)).trans (by decide)
  have hpattern : rt.toLower ("%" ++ query ++ "%") = containing (rt.toLower query) := by
    rw [containing, ← String.toList_inj, Runtime.toLower, String.toList_ofList, Runtime.toLower]
    simp [hpercent]
  have hend : endsInEscape (containing (rt.toLower query)).toList = false := by
    rw [containing, String.toList_append]
    exact endsInEscape_append _
  rw [queryWhere, if_neg hquery, hpattern, likeResult, likeFails, hend, Bool.false_and,
    if_neg (by decide)]

theorem queryWhere_of_plain {rt : Runtime} (hrt : rt.LowersAscii) {query : String}
    (h : ∀ c ∈ (rt.toLower query).toList, isPlain c = true) (message : String) :
    queryWhere rt query message = some (contains (rt.toLower message) (rt.toLower query)) := by
  by_cases hquery : query = ""
  · have hempty : contains (rt.toLower message) (rt.toLower query) = true := by
      rw [contains_iff, hquery]
      exact List.nil_infix
    rw [hempty, queryWhere, if_pos hquery]
  · rw [queryWhere_eq hrt hquery, Option.some.injEq, Bool.eq_iff_iff, like_containing h,
      contains_iff]

/-- A query with a special character finds a message that does not contain it. -/
theorem exists_message {rt : Runtime} (hrt : rt.LowersAscii) {query : String}
    (h : ¬ ∀ c ∈ (rt.toLower query).toList, isPlain c = true) :
    ∃ message, queryWhere rt query message ≠
      some (contains (rt.toLower message) (rt.toLower query)) := by
  have hquery : query ≠ "" := by
    rintro rfl
    exact h fun c hc => absurd hc List.not_mem_nil
  -- every character of the filling is the lower case of some character
  have hrange : ∀ c ∈ fill 'a' '%' (rt.toLower query).toList, c ∈ Set.range rt.lower := by
    intro c hc
    rcases mem_of_mem_fill hc with rfl | rfl | hc
    · exact ⟨'a', (hrt 'a' (by decide)).trans (by decide)⟩
    · exact ⟨'%', (hrt '%' (by decide)).trans (by decide)⟩
    · rw [Runtime.toLower, String.toList_ofList] at hc
      obtain ⟨d, -, rfl⟩ := List.mem_map.mp hc
      exact ⟨d, rfl⟩
  obtain ⟨message, hmessage⟩ : fill 'a' '%' (rt.toLower query).toList ∈
      Set.range (List.map rt.lower) := by
    rw [Set.range_list_map]
    exact hrange
  have hlower : (rt.toLower (String.ofList message)).toList =
      fill 'a' '%' (rt.toLower query).toList := by
    rw [Runtime.toLower, String.toList_ofList, String.toList_ofList, hmessage]
  refine ⟨String.ofList message, ?_⟩
  have hlike :
      like (containing (rt.toLower query)) (rt.toLower (String.ofList message)) = true := by
    rw [like, containing, String.toList_append, String.toList_append, List.append_assoc, hlower]
    exact likeMatch_any.mpr ⟨_, List.suffix_rfl, likeMatch_fill_append 'a' _⟩
  rw [queryWhere_eq hrt hquery, hlike, Ne, Option.some.injEq, eq_comm, contains_iff, hlower]
  intro hpart
  have hlength := le_antisymm hpart.length_le (length_fill_le 'a' '%' (rt.toLower query).toList)
  exact h (isPlain_of_fill_eq (by decide) (by decide) (hpart.eq_of_length hlength).symm)

/-! #### The container -/

theorem containerLike_of_plain_name {name uid : String} (h : ∀ c ∈ name.toList, isPlain c = true)
    (hcolon : ':' ∉ name.toList) : containerLike name uid =
      some (decide (':' ∈ uid.toList ∧ lastPart uid = name)) := by
  rw [containerLike_of_plain h, Option.some.injEq, Bool.eq_iff_iff, decide_eq_true_iff,
    decide_eq_true_iff]
  exact colon_suffix_iff hcolon

theorem containerWhere_of_plain {name uid : String}
    (h : ∀ c ∈ name.toList, isPlain c = true ∧ c ≠ ':') : containerWhere name uid =
      some (name == "" || decide (':' ∈ uid.toList ∧ lastPart uid = name)) := by
  have hcolon : ':' ∉ name.toList := fun hmem => (h _ hmem).2 rfl
  rw [containerWhere]
  split_ifs with hempty
  · rw [hempty]
    rfl
  · rw [containerLike_of_plain_name (fun c hc => (h c hc).1) hcolon,
      beq_eq_false_iff_ne.mpr hempty, Bool.false_or]

/-- The entity `x:` with the filling of a name after it. -/
def filledEntity (z : Char) (name : String) : String :=
  "x" ++ ":" ++ String.ofList (fill z z name.toList)

theorem filledEntity_toList (z : Char) (name : String) :
    (filledEntity z name).toList = ['x'] ++ ':' :: fill z z name.toList := by
  simp only [filledEntity, String.toList_append, String.toList_ofList]
  rfl

/-- The last part of the filling of a name that is not plain, or has a colon, is another name. -/
theorem lastPart_filledEntity_ne {z : Char} (hz : isPlain z = true) (hz' : z ≠ ':') {name : String}
    (h : ¬ ∀ c ∈ name.toList, isPlain c = true ∧ c ≠ ':') :
    lastPart (filledEntity z name) ≠ name := by
  intro hlast
  have hcolon : ':' ∉ name.toList := hlast ▸ colon_notMem_lastPart _
  have hfill : ':' ∉ fill z z name.toList := by
    intro hmem
    rcases mem_of_mem_fill hmem with heq | heq | hmem
    · exact hz' heq.symm
    · exact hz' heq.symm
    · exact hcolon hmem
  rw [← String.ofList_toList (s := filledEntity z name), filledEntity_toList,
    lastPart_append hfill] at hlast
  have hself : fill z z name.toList = name.toList := by
    have hchars := congrArg String.toList hlast
    rwa [String.toList_ofList] at hchars
  have hescape : z ≠ '\\' := by
    rintro rfl
    exact absurd hz (by decide)
  refine h fun c hc => ⟨isPlain_of_fill_eq hz hescape hself c hc, ?_⟩
  rintro rfl
  exact hcolon hc

/-- A container with a special character, or with a colon, finds another container. -/
theorem containerWhere_filledEntity {name : String}
    (h : ¬ ∀ c ∈ name.toList, isPlain c = true ∧ c ≠ ':') :
    containerWhere name (filledEntity 'a' name) ≠
      some (name == "" || lastPart (filledEntity 'a' name) == name) := by
  have hname : name ≠ "" := by
    rintro rfl
    exact h fun c hc => absurd hc List.not_mem_nil
  have hlast := lastPart_filledEntity_ne (by decide) (by decide) h (z := 'a')
  rw [containerWhere, if_neg hname, beq_eq_false_iff_ne.mpr hname, Bool.false_or,
    beq_eq_false_iff_ne.mpr hlast]
  exact containerLike_fill 'a' name "x"

/-! #### The list of containers -/

/-- An entity that is found by a name with a colon ends in a name of the list. -/
theorem containerLike_of_endsInName {containers : List String} {pattern : String}
    (h : EndsInName containers pattern) (uid : String) : ∃ found,
      containerLike pattern uid = some found ∧ (found = true → lastPart uid ∈ containers) := by
  obtain ⟨hend, before, name, hname, hcolon, htokens⟩ := h
  have hresult : containerLike pattern uid = some (like ("%:" ++ pattern) uid) := by
    rw [containerLike, likeResult, likeFails_colon hend, if_neg (by decide)]
  refine ⟨_, hresult, fun hfound => ?_⟩
  obtain ⟨t, ht, hmatch⟩ := exists_match_of_containerLike (hresult.trans (congrArg some hfound))
  -- what matches the last name comes after a colon, at the end of the entity
  rw [htokens] at hmatch
  obtain ⟨t₁, t₂, rfl, -, hmatch⟩ := likeMatch_append.mp hmatch
  obtain ⟨u, rfl, hmatch⟩ := likeMatch_char_append (s := [':']).mp hmatch
  rw [← List.append_nil (name.toList.map _)] at hmatch
  obtain ⟨v, rfl, hv⟩ := likeMatch_char_append.mp hmatch
  rw [List.isEmpty_iff.mp hv, List.append_nil] at ht
  have hsuffix : (':' :: name.toList) <:+ uid.toList :=
    (List.suffix_append (':' :: t₁) _).trans ht
  rwa [((colon_suffix_iff hcolon).mp hsuffix).2]

/-- A list of names of which none is passed over by a wildcard finds what it lists. -/
theorem containersWhere_of_plain {rt : Runtime} {filter : LogSearchFilter}
    (h : PlainFilter rt filter) (uid : String) : containersWhere filter.containers uid =
      some (filter.containers.isEmpty ||
        (decide (':' ∈ uid.toList) && filter.containers.contains (lastPart uid))) := by
  have hany : ∀ l : List String, (∀ name ∈ l, name ∈ filter.containers) → ∃ found,
      anyContainerLike uid l = some found ∧
        (found = true → ':' ∈ uid.toList ∧ lastPart uid ∈ filter.containers) ∧
        (':' ∈ uid.toList → lastPart uid ∈ l → found = true) := by
    intro l
    induction l with
    | nil =>
      exact fun _ => ⟨false, rfl, fun hf => absurd hf (by decide),
        fun _ hmem => absurd hmem List.not_mem_nil⟩
    | cons name l ih =>
      intro hl
      obtain ⟨hname, hl⟩ := List.forall_mem_cons.mp hl
      obtain ⟨rest, hrest, hsound, hcomplete⟩ := ih hl
      obtain ⟨here, hhere, hmine, hself⟩ : ∃ here, containerLike name uid = some here ∧
          (here = true → ':' ∈ uid.toList ∧ lastPart uid ∈ filter.containers) ∧
          (':' ∈ uid.toList → lastPart uid = name → here = true) := by
        by_cases hcolon : ':' ∈ name.toList
        · obtain ⟨here, hhere, hmem⟩ := containerLike_of_endsInName (h.colons name hname hcolon) uid
          refine ⟨here, hhere, fun hf => ⟨?_, hmem hf⟩, fun _ heq => ?_⟩
          · obtain ⟨t, ht, -⟩ := exists_match_of_containerLike (hf ▸ hhere)
            exact ht.subset List.mem_cons_self
          · exact absurd (heq ▸ hcolon) (colon_notMem_lastPart uid)
        · refine ⟨_, containerLike_of_plain_name (h.containers name hname hcolon) hcolon,
            fun hf => ?_, fun hu heq => decide_eq_true ⟨hu, heq⟩⟩
          obtain ⟨hu, rfl⟩ := of_decide_eq_true hf
          exact ⟨hu, hname⟩
      rw [anyContainerLike, hhere, Option.bind_some]
      cases here with
      | true => exact ⟨true, rfl, hmine, fun _ _ => rfl⟩
      | false =>
        refine ⟨rest, hrest, hsound, fun hu hmem => ?_⟩
        rcases List.mem_cons.mp hmem with heq | hmem
        · exact absurd (hself hu heq) (by decide)
        · exact hcomplete hu hmem
  rw [containersWhere]
  split_ifs with hempty
  · rw [hempty]
    rfl
  · obtain ⟨found, hfound, hsound, hcomplete⟩ := hany filter.containers fun _ hname => hname
    rw [hfound, List.isEmpty_eq_false_iff.mpr hempty, Bool.false_or, Option.some.injEq,
      Bool.eq_iff_iff, Bool.and_eq_true, decide_eq_true_iff, List.contains_iff_mem]
    exact ⟨hsound, fun hf => hcomplete hf.1 hf.2⟩

/-- What comes after the only colon. -/
theorem eq_of_colon_suffix {t name : List Char} (h : ':' ∉ name)
    (ht : (':' :: t) <:+ 'x' :: ':' :: name) : t = name := by
  rw [List.suffix_cons_iff, List.suffix_cons_iff] at ht
  rcases ht with heq | heq | ht
  · exact absurd (List.cons.inj heq).1 (by decide)
  · exact (List.cons.inj heq).2
  · exact absurd (ht.subset List.mem_cons_self) h

/-- A name in a list whose pattern is not passed over keeps the list from being passed over. -/
theorem anyContainerLike_ne_false {uid name : String} {l : List String} (hmem : name ∈ l)
    (h : containerLike name uid ≠ some false) : anyContainerLike uid l ≠ some false := by
  induction l with
  | nil => exact absurd hmem List.not_mem_nil
  | cons d l ih =>
    rw [anyContainerLike]
    cases hd : containerLike d uid with
    | none => simp
    | some found =>
      rw [Option.bind_some]
      cases found with
      | true => simp
      | false =>
        rcases List.mem_cons.mp hmem with rfl | hmem
        · exact absurd hd h
        · exact ih hmem

/-- A name that is found by a list is found by one of its names. -/
theorem exists_of_anyContainerLike {uid : String} {l : List String}
    (h : anyContainerLike uid l = some true) : ∃ name ∈ l, containerLike name uid = some true := by
  induction l with
  | nil => exact absurd h (by simp [anyContainerLike])
  | cons d l ih =>
    obtain ⟨found, hd, h⟩ := Option.bind_eq_some_iff.mp h
    cases found with
    | true => exact ⟨d, List.mem_cons_self, hd⟩
    | false =>
      obtain ⟨name, hname, hfound⟩ := ih h
      exact ⟨name, List.mem_cons_of_mem _ hname, hfound⟩

/-- A list whose names without a colon are not all plain finds something else than it lists, if
there is a character that it does not use. -/
theorem exists_entity {z : Char} (hz' : z ≠ ':') {containers : List String}
    (hfresh : ∀ name ∈ containers, z ∉ name.toList)
    (h : ∃ name ∈ containers, ':' ∉ name.toList ∧ ¬ ∀ c ∈ name.toList, isPlain c = true) :
    ∃ uid, ':' ∈ uid.toList ∧ containersWhere containers uid ≠
      some (containers.isEmpty || containers.contains (lastPart uid)) := by
  obtain ⟨name, hname, hcolon, hnot⟩ := h
  have hempty : containers ≠ [] := List.ne_nil_of_mem hname
  simp only [List.isEmpty_eq_false_iff.mpr hempty, Bool.false_or, containersWhere, if_neg hempty]
  by_cases hwild : ∃ name ∈ containers, ':' ∉ name.toList ∧ z ∈ fill z z name.toList
  · -- a wildcard stands for the character that no name has
    obtain ⟨name, hname, hcolon, hz''⟩ := hwild
    have hfill : ':' ∉ fill z z name.toList := by
      intro hmem
      rcases mem_of_mem_fill hmem with heq | heq | hmem
      · exact hz' heq.symm
      · exact hz' heq.symm
      · exact hcolon hmem
    have hlast : lastPart (filledEntity z name) = String.ofList (fill z z name.toList) := by
      rw [← String.ofList_toList (s := filledEntity z name), filledEntity_toList,
        lastPart_append hfill]
    have hnot : containers.contains (lastPart (filledEntity z name)) = false := by
      rw [Bool.eq_false_iff, Ne, List.contains_iff_mem, hlast]
      exact fun hmem => hfresh _ hmem (by rwa [String.toList_ofList])
    refine ⟨filledEntity z name, ?_, ?_⟩
    · rw [filledEntity_toList]
      exact List.mem_append_right _ List.mem_cons_self
    · rw [hnot]
      exact anyContainerLike_ne_false hname (containerLike_fill z name "x")
  · -- the longest name with an escape is found by no name of the list
    push Not at hwild
    classical
    let escaped := (containers.filter fun name =>
      ':' ∉ name.toList ∧ ¬ ∀ c ∈ name.toList, isPlain c = true).toFinset
    have hescaped : ∀ d, d ∈ escaped ↔
        d ∈ containers ∧ ':' ∉ d.toList ∧ ¬ ∀ c ∈ d.toList, isPlain c = true := by
      intro d
      rw [List.mem_toFinset, List.mem_filter, decide_eq_true_iff]
    obtain ⟨d, hd, hlongest⟩ := escaped.exists_max_image (fun d => d.toList.length)
      ⟨name, (hescaped name).mpr ⟨hname, hcolon, hnot⟩⟩
    obtain ⟨hdmem, hdcolon, hdnot⟩ := (hescaped d).mp hd
    have htext : (String.ofList ('x' :: ':' :: d.toList)).toList = 'x' :: ':' :: d.toList :=
      String.toList_ofList
    have hlast : lastPart (String.ofList ('x' :: ':' :: d.toList)) = d := by
      rw [← List.singleton_append, lastPart_append hdcolon, String.ofList_toList]
    refine ⟨String.ofList ('x' :: ':' :: d.toList), ?_, ?_⟩
    · rw [htext]
      exact List.mem_cons_of_mem _ List.mem_cons_self
    · rw [hlast, List.contains_iff_mem.mpr hdmem]
      intro htrue
      obtain ⟨e, he, hfound⟩ := exists_of_anyContainerLike htrue
      obtain ⟨t, ht, hmatch⟩ := exists_match_of_containerLike hfound
      rw [htext] at ht
      obtain rfl := eq_of_colon_suffix hdcolon ht
      have hecolon : ':' ∉ e.toList := fun hmem =>
        hdcolon (mem_of_likeMatch (by decide) hmem hmatch)
      have hez := hwild e he hecolon
      have hfilled := eq_fill_of_likeMatch hez hmatch
      by_cases heplain : ∀ c ∈ e.toList, isPlain c = true
      · rw [fill_eq_self heplain] at hfilled
        exact hdnot (hfilled ▸ heplain)
      · have hlonger := hlongest e ((hescaped e).mpr ⟨he, hecolon, heplain⟩)
        have hshorter := length_fill_lt hez heplain
        rw [← hfilled] at hshorter
        omega

/-- A name with a colon that does not end in a name of the list finds something else than the list
has, or makes an error. -/
theorem exists_entity_of_colon {z : Char} (hz : z ≠ ':') {containers : List String}
    (hfresh : ∀ name ∈ containers, z ∉ name.toList) {name : String} (hname : name ∈ containers)
    (hcolon : ':' ∈ name.toList) (h : ¬ EndsInName containers name) :
    ∃ uid, ':' ∈ uid.toList ∧ containersWhere containers uid ≠
      some (containers.isEmpty || containers.contains (lastPart uid)) := by
  have hempty : containers ≠ [] := List.ne_nil_of_mem hname
  have hlast : lastPart (filledEntity z name) ∉ containers := by
    intro hmem
    cases hend : endsInEscape name.toList with
    | true =>
      -- the filling ends in the character that no name has
      obtain ⟨q, hq⟩ := exists_fill_concat z z hend
      refine hfresh _ hmem ?_
      have htake := List.rtakeWhile_concat_pos (· != ':') (['x'] ++ ':' :: q) z (bne_iff_ne.mpr hz)
      rw [lastPart, String.toList_ofList, filledEntity_toList, hq, ← List.cons_append,
        ← List.append_assoc, htake]
      exact List.mem_append_right _ List.mem_cons_self
    | false =>
      obtain ⟨after, before, hsplit, hafter⟩ :=
        List.eq_append_cons_of_mem (List.mem_reverse.mpr (char_mem_likeTokens (by decide) hcolon))
      have htokens : likeTokens name.toList = before.reverse ++ .char ':' :: after.reverse := by
        rw [← List.reverse_reverse (likeTokens name.toList), hsplit]
        simp
      have hfill : ':' ∉ after.reverse.map (LikeToken.fill z) := by
        intro hmem
        obtain ⟨token, htoken, heq⟩ := List.mem_map.mp hmem
        cases token with
        | any => exact hz heq
        | one => exact hz heq
        | char c =>
          have hc : c = ':' := heq
          exact hafter (hc ▸ List.mem_reverse.mp htoken)
      have htext : lastPart (filledEntity z name) =
          String.ofList (after.reverse.map (LikeToken.fill z)) := by
        rw [← String.ofList_toList (s := filledEntity z name), filledEntity_toList,
          fill_eq_map z z hend, htokens, List.map_append, List.map_cons, ← List.cons_append,
          ← List.append_assoc]
        exact lastPart_append hfill
      have hchars : after.reverse.map (LikeToken.fill z) =
          (lastPart (filledEntity z name)).toList := by
        rw [htext, String.toList_ofList]
      refine h ⟨hend, before.reverse, _, hmem, colon_notMem_lastPart _, ?_⟩
      rw [htokens, eq_map_char_of_fill (hfresh _ hmem) hchars]
  refine ⟨filledEntity z name, ?_, ?_⟩
  · rw [filledEntity_toList]
    exact List.mem_append_right _ List.mem_cons_self
  · rw [List.isEmpty_eq_false_iff.mpr hempty, Bool.false_or, containersWhere, if_neg hempty,
      Bool.eq_false_iff.mpr fun hmem => hlast (List.contains_iff_mem.mp hmem)]
    exact anyContainerLike_ne_false hname (containerLike_fill z name "x")

/-- Plain conditions are literal for exactly the entities that are separated. -/
theorem literal_iff_separated {rt : Runtime} (hrt : rt.LowersAscii) {filter : LogSearchFilter}
    (h : PlainFilter rt filter) (r : LogRow) :
    Literal rt filter r ↔ Separated filter r.entityUID := by
  have hquery := queryWhere_of_plain hrt h.query r.message
  have hcontainer := @containerWhere_of_plain _ r.entityUID h.container
  have hcontainers := containersWhere_of_plain h r.entityUID
  by_cases hcolon : ':' ∈ r.entityUID.toList
  · refine iff_of_true ⟨hquery, ?_, ?_⟩ (.inl hcolon)
    · rw [hcontainer]
      simp [hcolon, Bool.beq_eq_decide_eq]
    · rw [hcontainers]
      simp [hcolon]
  have hlast := lastPart_of_notMem hcolon
  constructor
  · intro hliteral
    have hc := hcontainer.symm.trans hliteral.container
    have hcs := hcontainers.symm.trans hliteral.containers
    rw [hlast] at hc hcs
    simp only [hcolon, decide_false, false_and, Bool.false_and, Bool.or_false,
      Option.some.injEq] at hc hcs
    refine .inr ⟨?_, fun hmem => ?_⟩
    · by_contra hnot
      push Not at hnot
      rw [hnot.2] at hc
      simp [hnot.1] at hc
    · rw [List.contains_iff_mem.mpr hmem, Bool.or_true,
        List.isEmpty_eq_false_iff.mpr (List.ne_nil_of_mem hmem)] at hcs
      exact absurd hcs (by decide)
  · rintro (hmem | ⟨hne, hnotMem⟩)
    · exact absurd hmem hcolon
    refine ⟨hquery, ?_, ?_⟩
    · rw [hcontainer, hlast]
      rcases hne with hempty | hne
      · simp [hempty]
      · simp [hcolon, beq_eq_false_iff_ne.mpr hne]
    · rw [hcontainers, hlast]
      simp [hcolon, hnotMem]

/-- A row with a message and an entity. -/
def bareRow (message uid : String) : LogRow where
  ts := ⟨0⟩
  message := message
  level := ""
  entityUID := uid
  labelsJSON := ""
  fieldsJSON := ""

/-- A filter that is not plain fails for some entry with a colon in its entity. -/
theorem exists_not_literal {rt : Runtime} (hrt : rt.LowersAscii) {filter : LogSearchFilter}
    (hfresh : ∃ z, z ≠ ':' ∧ ∀ name ∈ filter.containers, z ∉ name.toList)
    (h : ¬ PlainFilter rt filter) :
    ∃ r : LogRow, ':' ∈ r.entityUID.toList ∧ ¬ Literal rt filter r := by
  obtain ⟨z, hz, hfresh⟩ := hfresh
  by_cases hquery : ∀ c ∈ (rt.toLower filter.query).toList, isPlain c = true
  case neg =>
    obtain ⟨message, hmessage⟩ := exists_message hrt hquery
    have hcolon : ':' ∈ "x:".toList := by decide
    exact ⟨bareRow message "x:", hcolon, fun hliteral => hmessage hliteral.query⟩
  by_cases hcontainer : ∀ c ∈ filter.container.toList, isPlain c = true ∧ c ≠ ':'
  case neg =>
    refine ⟨bareRow "" (filledEntity 'a' filter.container), ?_,
      fun hliteral => containerWhere_filledEntity hcontainer hliteral.container⟩
    rw [bareRow, filledEntity_toList]
    exact List.mem_append_right _ List.mem_cons_self
  obtain ⟨uid, huid, hne⟩ : ∃ uid, ':' ∈ uid.toList ∧ containersWhere filter.containers uid ≠
      some (filter.containers.isEmpty || filter.containers.contains (lastPart uid)) := by
    by_cases hnames : ∀ name ∈ filter.containers, ':' ∉ name.toList →
        ∀ c ∈ name.toList, isPlain c = true
    · have hcolons : ¬ ∀ name ∈ filter.containers, ':' ∈ name.toList →
          EndsInName filter.containers name :=
        fun hcolons => h ⟨hquery, hcontainer, hnames, hcolons⟩
      push Not at hcolons
      obtain ⟨name, hname, hcolon, hnot⟩ := hcolons
      exact exists_entity_of_colon hz hfresh hname hcolon hnot
    · push Not at hnames
      obtain ⟨name, hname, hcolon, c, hc, hplain⟩ := hnames
      exact exists_entity hz hfresh ⟨name, hname, hcolon, fun h => hplain (h c hc)⟩
  exact ⟨bareRow "" uid, huid, fun hliteral => hne hliteral.containers⟩

/-- **Key result.** A filter selects literally among all entries with a colon in their entities if
and only if its texts are plain, as long as there is a character that its containers do not use;
entries without a colon are selected literally by a plain filter if they are separated. -/
theorem literal_iff {rt : Runtime} (hrt : rt.LowersAscii) (filter : LogSearchFilter) :
    ((∃ z, z ≠ ':' ∧ ∀ name ∈ filter.containers, z ∉ name.toList) →
      ((∀ r : LogRow, ':' ∈ r.entityUID.toList → Literal rt filter r) ↔
        PlainFilter rt filter)) ∧
      (PlainFilter rt filter → ∀ r : LogRow,
        Literal rt filter r ↔ Separated filter r.entityUID) := by
  refine ⟨fun hfresh => ⟨fun h => ?_, fun h r hr => ?_⟩, literal_iff_separated hrt⟩
  · by_contra hnot
    obtain ⟨r, hr, hliteral⟩ := exists_not_literal hrt hfresh hnot
    exact hliteral (h r hr)
  · exact (literal_iff_separated hrt h r).mpr (.inl hr)

/-- A plain filter fails for no row. -/
theorem containerFails_of_plain {rt : Runtime} {filter : LogSearchFilter}
    (h : PlainFilter rt filter) (r : LogRow) : containerFails filter r = false := by
  have hcontainer := likeFails_colon
    (endsInEscape_eq_false fun c hc => (h.container c hc).1) r.entityUID
  have hcontainers : (filter.containers.any fun c => likeFails ("%:" ++ c) r.entityUID) =
      false := by
    rw [List.any_eq_false]
    intro name hname
    by_cases hcolon : ':' ∈ name.toList
    · rw [likeFails_colon (h.colons name hname hcolon).1]
      exact Bool.false_ne_true
    · rw [likeFails_colon (endsInEscape_eq_false (h.containers name hname hcolon))]
      exact Bool.false_ne_true
  rw [containerFails, hcontainer, hcontainers, Bool.and_false, Bool.or_false]

/-- **What a plain filter selects.** For an entry with a colon in its entity no pattern fails, and
`logWhere` is the plain conditions together with those on the window, the entity, the level, the
topic and the trace. -/
theorem logWhere_of_plain {rt : Runtime} (hrt : rt.LowersAscii) {filter : LogSearchFilter}
    (h : PlainFilter rt filter) {r : LogRow} (hcolon : ':' ∈ r.entityUID.toList) :
    containerFails filter r = false ∧ logWhere rt filter r =
      (inWindow filter.since filter.until_ r.ts &&
        contains (rt.toLower r.message) (rt.toLower filter.query) &&
        (filter.entityUID == "" || r.entityUID == filter.entityUID) &&
        (filter.container == "" || lastPart r.entityUID == filter.container) &&
        (filter.level == "" || filter.level == "all" || r.level == filter.level) &&
        (filter.topic == "" || filter.topic == "all" ||
          like (topicPattern filter.topic) r.fieldsJSON) &&
        (filter.traceID == "" || traceWhere rt filter.traceID r) &&
        (filter.containers.isEmpty || filter.containers.contains (lastPart r.entityUID))) := by
  have hliteral := (literal_iff_separated hrt h r).mpr (.inl hcolon)
  exact ⟨containerFails_of_plain h r,
    logWhere_eq hliteral.query hliteral.container hliteral.containers⟩

/-- A search of one container. -/
def containerFilter (container : String) : LogSearchFilter where
  query := ""
  entityUID := ""
  container := container
  containers := []
  level := ""
  topic := ""
  traceID := ""
  since := ⟨0⟩
  until_ := ⟨0⟩

/-- A plain container is searched literally. -/
theorem literal_api :
    Literal asciiRuntime (containerFilter "api") (bareRow "" "docker:h:api") := by
  refine ((literal_iff (fun _ _ => rfl) (containerFilter "api")).2 ?_ _).mpr (.inl (by decide))
  have hplain : ∀ c ∈ (containerFilter "api").container.toList, isPlain c = true ∧ c ≠ ':' :=
    forall_mem_of_all (by decide)
  exact ⟨fun _ hc => absurd hc List.not_mem_nil, hplain,
    fun _ hname => absurd hname List.not_mem_nil, fun _ hname => absurd hname List.not_mem_nil⟩

/-- The container `my_app` finds the entries of `myXapp`. -/
theorem underscore_matches : ¬ ∀ (rt : Runtime) (filter : LogSearchFilter) (r : LogRow),
    rt.LowersAscii → Literal rt filter r := by
  intro h
  have hcontainer :=
    (h asciiRuntime (containerFilter "my_app") (bareRow "" "docker:h:myXapp")
      fun _ _ => rfl).container
  exact absurd hcontainer (by decide)

end Argus
