import CePubsub.Laws.Filter

/-!
# The grammar of filters, and what else the parser accepts

A filter is a sequence of clauses between white space, each a bare key, a sign or two, and a quoted
value. The parser takes all of the text up to the next sign for a key, so it accepts besides what has
more than a bare key there: a comparison of another kind, a word between two clauses, a clause that
follows another with no space (`accepts_more`). Apart from that it accepts the grammar only, with its
meaning (`sound_iff`).
-/

namespace CePubsub

namespace AttributeFilter

open Text (isWhitespace isAsciiBlank)

/-- The characters an operator of a filter language would be made of. -/
def operatorChars : List Char := ['=', '!', '<', '>']

/-- Neither white space nor a quote nor of an operator. -/
def Plain (c : Char) : Prop := isWhitespace c = false ∧ c ≠ quoteMark ∧ c ∉ operatorChars

instance : DecidablePred Plain := fun c =>
  inferInstanceAs (Decidable (isWhitespace c = false ∧ c ≠ quoteMark ∧ c ∉ operatorChars))

/-- A bare identifier. -/
structure Bare (word : List Char) : Prop where
  some : word ≠ []
  plain : ∀ c ∈ word, Plain c

instance (word : List Char) : Decidable (Bare word) :=
  have := List.decidableBAll Plain word
  decidable_of_iff (word ≠ [] ∧ ∀ c ∈ word, Plain c) ⟨fun h => ⟨h.1, h.2⟩, fun h => ⟨h.some, h.plain⟩⟩

/-- The prefix a key may have. -/
def attributesDot : List Char := "attributes.".toList

/-- The text of one clause, its key and its value. -/
inductive Clause : List Char → List Char × List Char → Prop where
  | of {lead key before signs after value} : lead = [] ∨ lead = attributesDot → Bare key →
      Blank isWhitespace before → signs = [] ∨ signs = [eqSign] → Blank isWhitespace after →
      quoteMark ∉ value →
      Clause (lead ++ key ++ before ++ eqSign :: (signs ++ (after ++ quoteMark :: (value ++ [quoteMark]))))
        (key, value)

/-- The text of a filter, and its clauses. -/
inductive Grammar : List Char → List (List Char × List Char) → Prop where
  | none : Grammar [] []
  | one {cs clause} : Clause cs clause → Grammar cs [clause]
  | more {cs gap rest clause next clauses} : Clause cs clause → gap ≠ [] → Blank isWhitespace gap →
      Grammar rest (next :: clauses) → Grammar (cs ++ (gap ++ rest)) (clause :: next :: clauses)

/-- The grammar has `s`, and the parser reads its clauses, or `s` is rejected. -/
def Sound (s : String) : Prop :=
  (∃ clauses, Grammar (Text.trim s).toList clauses ∧ parse s = some (.ok
    { clauses := clauses.map fun (key, value) => (.ofList key, .ofList value) })) ∨
    ∃ why, parse s = some (.error why)

/-- A bare word between white space. -/
def Worded (key : List Char) : Prop :=
  ∃ lead word trail, Blank isWhitespace lead ∧ Bare word ∧ Blank isWhitespace trail ∧
    key = lead ++ (word ++ trail)

/-- White space comes first. -/
def Spaced (key : List Char) : Prop := ∃ c ∈ key.head?, isWhitespace c

instance (key : List Char) : Decidable (Spaced key) :=
  decidable_of_iff (key.head?.any isWhitespace) (Option.any_eq_true _ _)

/-- Before every sign there is one bare word, and space between it and the quote before. -/
structure Clean (cuts : List (List Char × List Char)) : Prop where
  worded : ∀ cut ∈ cuts, Worded cut.1
  spaced : ∀ cut ∈ cuts.tail, Spaced cut.1

/-! ## From the text as the parser cuts it to the grammar -/

/-- A bare word begins with no white space. -/
theorem Bare.head {word : List Char} (h : Bare word) : ∀ c ∈ word.head?, isWhitespace c = false :=
  fun c mem => (h.plain c (List.mem_of_mem_head? mem)).1

theorem not_spaced_iff {cs : List Char} :
    ¬ Spaced cs ↔ ∀ c ∈ cs.head?, isWhitespace c = false := by
  simp only [Spaced, not_exists, not_and, Bool.not_eq_true]

/-- Nor does it end with any. -/
theorem Bare.last {word : List Char} (h : Bare word) : ∀ c ∈ word.getLast?, isWhitespace c = false :=
  fun c mem => (h.plain c (List.mem_of_mem_getLast? mem)).1

/-- Nor does it contain an equals sign. -/
theorem Bare.unsigned {word : List Char} (h : Bare word) : eqSign ∉ word := fun mem =>
  (h.plain eqSign mem).2.2 (by decide)

/-- What the parser makes of a word between white space: the word, or what follows the prefix. -/
theorem keyOf_worded {lead word trail : List Char} (leads : Blank isWhitespace lead)
    (bare : Bare word) (trails : Blank isWhitespace trail) :
    ∃ front, (front = [] ∨ front = attributesDot) ∧
      word = front ++ (keyOf (.ofList (lead ++ (word ++ trail)))).toList := by
  have trimmed := Text.trim_between leads trails bare.head bare.last
  rw [List.append_assoc] at trimmed
  rw [keyOf, trimmed]
  cases strips : Text.stripPrefix "attributes." (String.ofList word) with
  | none => exact ⟨[], .inl rfl, by simp⟩
  | some rest =>
    have split := Text.stripPrefix_eq_some_iff.mp strips
    rw [String.toList_ofList] at split
    exact ⟨attributesDot, .inr rfl, split⟩

/-- The clause the grammar reads where the parser's cut is clean. -/
theorem clause_of_cut {lead word trail signs gap value : List Char} (leads : Blank isWhitespace lead)
    (bare : Bare word) (trails : Blank isWhitespace trail) (signs_ok : signs = [] ∨ signs = [eqSign])
    (gap_ok : Blank isWhitespace gap) (value_ok : quoteMark ∉ value)
    (named : keyOf (.ofList (lead ++ (word ++ trail))) ≠ "") :
    Clause (word ++ trail ++ eqSign :: (signs ++ (gap ++ quoteMark :: (value ++ [quoteMark]))))
      ((keyOf (.ofList (lead ++ (word ++ trail)))).toList, value) := by
  obtain ⟨front, front_ok, split⟩ := keyOf_worded leads bare trails
  have inside : ∀ c ∈ (keyOf (.ofList (lead ++ (word ++ trail)))).toList, c ∈ word := by
    intro c mem
    rw [split]
    exact List.mem_append_right _ mem
  have key : Bare (keyOf (.ofList (lead ++ (word ++ trail)))).toList :=
    ⟨fun none => named (String.toList_eq_nil_iff.mp none), fun c mem => bare.plain c (inside c mem)⟩
  have clause := Clause.of front_ok key trails signs_ok gap_ok value_ok
  rwa [← split] at clause

/-- The clause of a cut, as the grammar tells it. -/
def named (cut : List Char × List Char) : List Char × List Char := ((keyOf (.ofList cut.1)).toList, cut.2)

/-- What follows a clause is as clean. -/
theorem Clean.tail {cut : List Char × List Char} {cuts : List (List Char × List Char)}
    (h : Clean (cut :: cuts)) : Clean cuts where
  worded c mem := h.worded c (List.mem_cons_of_mem _ mem)
  spaced c mem := h.spaced c (List.mem_of_mem_tail mem)

/-- A bare word after white space, if white space comes first, comes after some. -/
theorem ne_nil_of_spaced {lead word trail : List Char} (bare : Bare word)
    (spaced : Spaced (lead ++ (word ++ trail))) : lead ≠ [] := by
  rintro rfl
  rw [List.nil_append] at spaced
  obtain ⟨c, first, blank⟩ := spaced
  rw [List.head?_append_of_ne_nil _ bare.some] at first
  exact not_spaced_iff.mpr bare.head ⟨c, first, blank⟩

/-- A clause, and text after it. -/
theorem clause_append (key signs gap value rest : List Char) :
    key ++ eqSign :: (signs ++ (gap ++ quoteMark :: (value ++ quoteMark :: rest))) =
      key ++ eqSign :: (signs ++ (gap ++ quoteMark :: (value ++ [quoteMark]))) ++ rest := by
  simp only [List.append_assoc, List.cons_append, List.nil_append]

/-- **Where the cut is clean, the text is in the grammar**, after the white space it begins with. -/
theorem grammar_of_cuts {cs : List Char} {cuts : List (List Char × List Char)}
    (h : Cuts isAsciiBlank cs cuts) (names : Named cuts) (clean : Clean cuts)
    (last : ∀ c ∈ cs.getLast?, isWhitespace c = false) :
    ∃ lead rest, Blank isWhitespace lead ∧ cs = lead ++ rest ∧ Grammar rest (cuts.map named) ∧
      ((∃ cut ∈ cuts.head?, Spaced cut.1) → lead ≠ []) ∧ (cuts = [] → cs = []) := by
  induction h with
  | @done tail blank =>
    have none : tail = [] := by
      by_contra some
      have black := last _ (List.getLast?_eq_some_getLast some)
      rw [Text.isWhitespace_of_isAsciiBlank (blank _ (List.getLast_mem some))] at black
      cases black
    subst none
    exact ⟨[], [], List.forall_mem_nil _, rfl, .none, by rintro ⟨_, ⟨⟩, _⟩, fun _ => rfl⟩
  | @clause key signs gap value rest cuts key_ok signs_ok gap_ok value_ok rest_ok ih =>
    have named_ok := names _ List.mem_cons_self
    obtain ⟨lead, word, trail, leads, bare, trails, split⟩ := clean.worded _ List.mem_cons_self
    simp only at split
    subst split
    have clause := clause_of_cut leads bare trails signs_ok
      (fun c mem => Text.isWhitespace_of_isAsciiBlank (gap_ok c mem)) value_ok named_ok
    rw [clause_append] at last ⊢
    have lasts : ∀ c ∈ rest.getLast?, isWhitespace c = false := by
      intro c mem
      refine last c ?_
      rw [List.getLast?_append, Option.mem_def.mp mem]
      rfl
    obtain ⟨between, rest', blank, split, later, spaced, empty⟩ :=
      ih (fun cut mem => names cut (List.mem_cons_of_mem _ mem)) clean.tail lasts
    refine ⟨lead, word ++ trail ++ eqSign :: (signs ++ (gap ++ quoteMark :: (value ++ [quoteMark]))) ++
      rest,
      leads, by simp only [List.append_assoc], ?_, ?_, fun none => by cases none⟩
    · cases cuts with
      | nil =>
        rw [empty rfl, List.append_nil]
        exact .one clause
      | cons next cuts =>
        rw [split]
        exact .more clause (spaced ⟨next, rfl, clean.spaced next List.mem_cons_self⟩) blank later
    · rintro ⟨_, ⟨⟩, first⟩
      exact ne_nil_of_spaced bare first

/-! ## From the grammar to the text as the parser cuts it -/

/-- The prefix is a bare word itself. -/
theorem bare_attributesDot : Bare attributesDot := by decide

/-- With its prefix a bare key is a bare word. -/
theorem Bare.append {front key : List Char} (front_ok : front = [] ∨ front = attributesDot)
    (bare : Bare key) : Bare (front ++ key) where
  some none := bare.some (List.append_eq_nil_iff.mp none).2
  plain c mem := by
    rcases front_ok with rfl | rfl
    · exact bare.plain c mem
    · exact (List.mem_append.mp mem).elim (bare_attributesDot.plain c) (bare.plain c)

theorem isWhitespace_eqSign : isWhitespace eqSign = false := by decide

theorem isWhitespace_quoteMark : isWhitespace quoteMark = false := by decide

/-- The parser stops at no sign inside a key. -/
theorem Worded.unsigned {key : List Char} (h : Worded key) : eqSign ∉ key := by
  obtain ⟨lead, word, trail, leads, bare, trails, rfl⟩ := h
  intro mem
  rcases List.mem_append.mp mem with inside | mem
  · exact leads.eqSign_not_mem isWhitespace_eqSign inside
  · rcases List.mem_append.mp mem with inside | inside
    · exact bare.unsigned inside
    · exact trails.eqSign_not_mem isWhitespace_eqSign inside

/-- White space may come before a key. -/
theorem Worded.append {gap key : List Char} (blank : Blank isWhitespace gap) (h : Worded key) :
    Worded (gap ++ key) := by
  obtain ⟨lead, word, trail, leads, bare, trails, rfl⟩ := h
  refine ⟨gap ++ lead, word, trail, fun c mem => ?_, bare, trails, (List.append_assoc ..).symm⟩
  exact (List.mem_append.mp mem).elim (blank c) (leads c)

/-- A clause is cut off the front of the text. -/
theorem Clause.cut {cs : List Char} {clause : List Char × List Char} (h : Clause cs clause) :
    ∃ key, Worded key ∧ ∀ {rest cuts}, Cuts isWhitespace rest cuts →
      Cuts isWhitespace (cs ++ rest) ((key, clause.2) :: cuts) := by
  cases h with
  | @of lead key before signs after value front_ok bare before_ok signs_ok after_ok value_ok =>
    have worded : Worded (lead ++ key ++ before) :=
      ⟨[], lead ++ key, before, List.forall_mem_nil _, bare.append front_ok, before_ok, rfl⟩
    refine ⟨_, worded, fun is => ?_⟩
    rw [← clause_append]
    exact .clause worded.unsigned signs_ok after_ok value_ok is

/-- White space before a clause is before its key. -/
theorem Cuts.shift {gap cs key value : List Char} {cuts : List (List Char × List Char)}
    (blank : Blank isWhitespace gap) (h : Cuts isWhitespace cs ((key, value) :: cuts)) :
    Cuts isWhitespace (gap ++ cs) ((gap ++ key, value) :: cuts) := by
  cases h with
  | clause key_ok signs_ok gap_ok value_ok is =>
    rw [← List.append_assoc]
    refine .clause (fun mem => ?_) signs_ok gap_ok value_ok is
    exact (List.mem_append.mp mem).elim (blank.eqSign_not_mem isWhitespace_eqSign) key_ok

/-- **Text in the grammar is cut clean.** -/
theorem cuts_of_grammar {cs : List Char} {clauses : List (List Char × List Char)}
    (h : Grammar cs clauses) : ∃ cuts, Cuts isWhitespace cs cuts ∧ Clean cuts ∧
      cuts.length = clauses.length := by
  induction h with
  | none => exact ⟨[], .done (List.forall_mem_nil _), ⟨by rintro _ ⟨⟩, by rintro _ ⟨⟩⟩, rfl⟩
  | one clause =>
    obtain ⟨key, worded, is⟩ := clause.cut
    have single := is (.done (List.forall_mem_nil _))
    rw [List.append_nil] at single
    exact ⟨_, single, ⟨List.forall_mem_singleton.mpr worded, by rintro _ ⟨⟩⟩, rfl⟩
  | @more cs gap rest clause next clauses first some blank _ ih =>
    obtain ⟨key, worded, is⟩ := first.cut
    obtain ⟨cuts, later, clean, length⟩ := ih
    cases cuts with
    | nil => cases length
    | cons cut cuts =>
      refine ⟨_, is (later.shift blank), ⟨?_, ?_⟩, congrArg (· + 1) length⟩
      · refine List.forall_mem_cons.mpr ⟨worded, List.forall_mem_cons.mpr ⟨?_, clean.tail.worded⟩⟩
        exact (clean.worded cut List.mem_cons_self).append blank
      · refine List.forall_mem_cons.mpr ⟨?_, clean.spaced⟩
        obtain ⟨c, gap, rfl⟩ := List.exists_cons_of_ne_nil some
        exact ⟨c, rfl, blank c List.mem_cons_self⟩

/-! ## Soundness -/

/-- A sound text is cut into clean clauses. -/
theorem Sound.clean {s : String} (h : Sound s) {cuts : List (List Char × List Char)}
    (is : Cuts isAsciiBlank (Text.trim s).toList cuts) (names : Named cuts) : Clean cuts := by
  have read := (parse_ok_iff s { clauses := cuts.map clauseOf }).mpr ⟨cuts, is, names, rfl⟩
  rcases h with ⟨clauses, derived, -⟩ | ⟨why, rejected⟩
  · obtain ⟨cuts', is', clean, -⟩ := cuts_of_grammar derived
    have wide := is.mono fun _ => Text.isWhitespace_of_isAsciiBlank
    rwa [Cuts.unique isWhitespace_eqSign isWhitespace_quoteMark wide is']
  · cases read.symm.trans rejected

/-- What the parser reads is what the grammar tells. -/
theorem map_clauseOf (cuts : List (List Char × List Char)) :
    cuts.map clauseOf = (cuts.map named).map fun (key, value) => (.ofList key, .ofList value) := by
  rw [List.map_map]
  refine List.map_congr_left fun cut _ => ?_
  simp only [clauseOf, Function.comp_apply, named, String.ofList_toList]

/-- A text that is cut into clean clauses is sound. -/
theorem sound_of_clean {s : String} (h : ∀ cuts, Cuts isAsciiBlank (Text.trim s).toList cuts →
    Named cuts → Clean cuts) : Sound s := by
  cases parsed : parse s with
  | none => exact absurd parsed (parse_ne_none s)
  | some read =>
    cases read with
    | error why => exact .inr ⟨why, parsed⟩
    | ok f =>
      obtain ⟨cuts, is, names, same⟩ := (parse_ok_iff s f).mp parsed
      obtain ⟨lead, rest, blank, split, derived, -, -⟩ :=
        grammar_of_cuts is names (h cuts is names) (Text.getLast?_trim s)
      have bare : lead = [] := by
        by_contra some
        obtain ⟨c, lead, rfl⟩ := List.exists_cons_of_ne_nil some
        have black := Text.head?_trim s c (split ▸ rfl)
        rw [blank c List.mem_cons_self] at black
        cases black
      subst bare
      rw [List.nil_append] at split
      cases f
      obtain rfl := same
      exact .inl ⟨cuts.map named, split ▸ derived, map_clauseOf cuts ▸ parsed⟩

/-- **The parser is sound exactly where the text, cut at its signs and quotes, has one bare word before
each sign**, and space between it and the quote before. -/
theorem sound_iff (s : String) :
    Sound s ↔ ∀ cuts, Cuts isAsciiBlank (Text.trim s).toList cuts → Named cuts → Clean cuts :=
  ⟨fun sound _ is names => sound.clean is names, sound_of_clean⟩

/-- What is between the white space is the word. -/
theorem Worded.bare {key : List Char} (h : Worded key) : Bare (Text.trim (.ofList key)).toList := by
  obtain ⟨lead, word, trail, leads, bare, trails, rfl⟩ := h
  rw [← List.append_assoc, Text.trim_between leads trails bare.head bare.last, String.toList_ofList]
  exact bare

theorem eqSign_eq : eqSign = '=' := by decide

theorem quoteMark_eq : quoteMark = '"' := by decide

/-- A negated clause is cut as if the sign of negation belonged to the key. -/
theorem cuts_negated : Cuts isAsciiBlank "kind != \"order\"".toList
    [("kind !".toList, "order".toList)] := by
  have cut := @Cuts.clause isAsciiBlank "kind !".toList [] " ".toList "order".toList [] [] (by decide)
    (.inl rfl) (by decide) (by decide) (.done (List.forall_mem_nil _))
  simpa [eqSign_eq, quoteMark_eq] using cut

/-- Two clauses with some text between them. -/
theorem cuts_two {between : List Char} (unsigned : eqSign ∉ between) :
    Cuts isAsciiBlank ("a=\"1\"".toList ++ (between ++ "b=\"2\"".toList))
      [("a".toList, "1".toList), (between ++ "b".toList, "2".toList)] := by
  have key : eqSign ∉ between ++ "b".toList := fun mem =>
    (List.mem_append.mp mem).elim unsigned (by decide)
  have second := @Cuts.clause isAsciiBlank _ [] [] "2".toList [] [] key (.inl rfl) (by decide)
    (by decide) (.done (List.forall_mem_nil _))
  have first := @Cuts.clause isAsciiBlank "a".toList [] [] "1".toList _ _ (by decide) (.inl rfl)
    (by decide) (by decide) second
  simpa [eqSign_eq, quoteMark_eq] using first

/-- A negated comparison, a word between two clauses and two clauses with no space between them. -/
theorem accepts_more :
    (parse "kind != \"order\"" = some (.ok { clauses := [("kind !", "order")] }) ∧
      ¬ Sound "kind != \"order\"") ∧
    ¬ Sound "a=\"1\" AND b=\"2\"" ∧ ¬ Sound "a=\"1\"b=\"2\"" := by
  have negated : (Text.trim "kind != \"order\"").toList = "kind != \"order\"".toList := by decide
  have worded : (Text.trim "a=\"1\" AND b=\"2\"").toList =
      "a=\"1\"".toList ++ (" AND ".toList ++ "b=\"2\"".toList) := by decide
  have spaced : (Text.trim "a=\"1\"b=\"2\"").toList =
      "a=\"1\"".toList ++ ([] ++ "b=\"2\"".toList) := by decide
  refine ⟨⟨?_, ?_⟩, ?_, ?_⟩
  · exact (parse_ok_iff _ _).mpr ⟨_, negated ▸ cuts_negated, by decide, by decide⟩
  · intro sound
    have clean := sound.clean (negated ▸ cuts_negated) (by decide)
    exact absurd (clean.worded _ List.mem_cons_self).bare (by decide)
  · intro sound
    have clean := sound.clean (worded ▸ cuts_two (by decide)) (by decide)
    exact absurd (clean.worded _ (List.mem_cons_of_mem _ List.mem_cons_self)).bare (by decide)
  · intro sound
    have clean := sound.clean (spaced ▸ cuts_two (by decide)) (by decide)
    exact absurd (clean.spaced _ List.mem_cons_self) (by decide)

end AttributeFilter

end CePubsub
