import CePubsub.Laws.FilterGrammar

/-!
# Filters, written and read back

A clause can be written in many ways: with the prefix or without, with one sign or two, with white
space around them. `parse_render` says that each of them is read as the clause it was written from, and
what a message must have to match all of them.
-/

namespace CePubsub

namespace AttributeFilter

open Text (isWhitespace isAsciiBlank)

/-- A key and a value that can be written down. -/
structure Writable where
  key : String
  value : String
  some : key ≠ ""
  unsigned : eqSign ∉ key.toList
  first : ¬ Spaced key.toList
  last : ¬ Spaced key.toList.reverse
  bare : ¬ attributesDot <+: key.toList
  unquoted : quoteMark ∉ value.toList

/-- A way to write a clause, and what is left between it and the clause before. -/
structure Spelling where
  gap : List Char
  dotted : Bool
  before : List Char
  doubled : Bool
  after : List Char
  gap_some : gap ≠ []
  gap_blank : Blank isAsciiBlank gap
  before_blank : Blank isAsciiBlank before
  after_blank : Blank isAsciiBlank after

/-- The prefix before the key, if it is written. -/
def Spelling.front (sp : Spelling) : List Char := if sp.dotted then attributesDot else []

/-- The second sign, if it is written. -/
def Spelling.signs (sp : Spelling) : List Char := if sp.doubled then [eqSign] else []

/-- A clause, written so. -/
def Spelling.write (sp : Spelling) (clause : Writable) : List Char :=
  sp.front ++ clause.key.toList ++ sp.before ++
    eqSign :: (sp.signs ++ (sp.after ++ quoteMark :: (clause.value.toList ++ [quoteMark])))

/-- The clauses after the first, each after its gap. -/
def renderRest (clauses : List (Writable × Spelling)) : List Char :=
  clauses.flatMap fun (clause, sp) => sp.gap ++ sp.write clause

/-- Clauses written one after another. The first has no gap before it. -/
def render : List (Writable × Spelling) → List Char
  | [] => []
  | (clause, sp) :: clauses => sp.write clause ++ renderRest clauses

/-- What the parser is to read. -/
def Writable.pair (clause : Writable) : String × String := (clause.key, clause.value)

/-! ## One clause -/

/-- The prefix is written whole or not at all. -/
theorem Spelling.front_cases (sp : Spelling) : sp.front = [] ∨ sp.front = attributesDot := by
  cases dotted : sp.dotted with
  | false => exact .inl (if_neg (dotted ▸ Bool.false_ne_true))
  | true => exact .inr (if_pos dotted)

/-- There is one sign more or none. -/
theorem Spelling.signs_cases (sp : Spelling) : sp.signs = [] ∨ sp.signs = [eqSign] := by
  cases doubled : sp.doubled with
  | false => exact .inl (if_neg (doubled ▸ Bool.false_ne_true))
  | true => exact .inr (if_pos doubled)

/-- The prefix has no white space in it and no sign. -/
theorem Spelling.front_plain (sp : Spelling) : ∀ c ∈ sp.front, isWhitespace c = false ∧ c ≠ eqSign := by
  intro c mem
  rcases sp.front_cases with none | dot
  · rw [none] at mem
    cases mem
  · rw [dot] at mem
    obtain ⟨black, -, plain⟩ := bare_attributesDot.plain c mem
    exact ⟨black, fun sign => plain (sign ▸ by decide)⟩

/-- A key has a first character, -/
theorem Writable.toList_ne_nil (clause : Writable) : clause.key.toList ≠ [] :=
  mt String.toList_eq_nil_iff.mp clause.some

/-- which is not white space, with the prefix before it or without, -/
theorem Writable.head?_front (clause : Writable) (sp : Spelling) :
    ∀ c ∈ (sp.front ++ clause.key.toList).head?, isWhitespace c = false := by
  intro c mem
  rw [List.head?_append] at mem
  cases front : sp.front.head? with
  | none =>
    rw [front] at mem
    exact not_spaced_iff.mp clause.first c mem
  | some d =>
    rw [front] at mem
    cases mem
    exact (sp.front_plain c (List.mem_of_mem_head? front)).1

/-- nor is its last. -/
theorem Writable.getLast?_front (clause : Writable) (sp : Spelling) :
    ∀ c ∈ (sp.front ++ clause.key.toList).getLast?, isWhitespace c = false := by
  intro c mem
  rw [List.getLast?_append_of_ne_nil _ clause.toList_ne_nil] at mem
  exact not_spaced_iff.mp clause.last c (List.head?_reverse ▸ mem)

/-- The key is read from what is written before the sign. -/
theorem keyOf_written (clause : Writable) (sp : Spelling) {gap : List Char}
    (blank : Blank isAsciiBlank gap) :
    keyOf (.ofList (gap ++ (sp.front ++ clause.key.toList ++ sp.before))) = clause.key := by
  have wide : ∀ {cs}, Blank isAsciiBlank cs → ∀ c ∈ cs, isWhitespace c := fun h c mem =>
    Text.isWhitespace_of_isAsciiBlank (h c mem)
  have trimmed := Text.trim_between (wide blank) (wide sp.before_blank) (clause.head?_front sp)
    (clause.getLast?_front sp)
  rw [List.append_assoc] at trimmed
  rw [keyOf, trimmed]
  rcases sp.front_cases with none | dot
  · have bare : Text.stripPrefix "attributes." clause.key = .none :=
      Text.stripPrefix_eq_none_iff.mpr clause.bare
    rw [none, List.nil_append, String.ofList_toList, bare]
    rfl
  · have strips : Text.stripPrefix "attributes." (.ofList (attributesDot ++ clause.key.toList)) =
        .some clause.key :=
      Text.stripPrefix_eq_some_iff.mpr String.toList_ofList
    rw [dot, strips]
    rfl

/-- What the parser cuts off where a clause is written. -/
def Spelling.cut (sp : Spelling) (gap : List Char) (clause : Writable) : List Char × List Char :=
  (gap ++ (sp.front ++ clause.key.toList ++ sp.before), clause.value.toList)

/-- What is cut off a written clause is read as the clause. -/
theorem clauseOf_cut (clause : Writable) (sp : Spelling) {gap : List Char}
    (blank : Blank isAsciiBlank gap) : clauseOf (sp.cut gap clause) = clause.pair := by
  rw [clauseOf, Spelling.cut, keyOf_written clause sp blank, String.ofList_toList]
  rfl

/-- A clause written before what is cut into clauses is one cut more. -/
theorem Cuts.written (clause : Writable) (sp : Spelling) {gap rest : List Char}
    {cuts : List (List Char × List Char)} (blank : Blank isAsciiBlank gap)
    (is : Cuts isAsciiBlank rest cuts) :
    Cuts isAsciiBlank (gap ++ (sp.write clause ++ rest)) (sp.cut gap clause :: cuts) := by
  have unsigned : eqSign ∉ gap ++ (sp.front ++ clause.key.toList ++ sp.before) := by
    intro mem
    rcases List.mem_append.mp mem with inside | mem
    · exact blank.eqSign_not_mem isAsciiBlank_eqSign inside
    · rcases List.mem_append.mp mem with mem | inside
      · exact (List.mem_append.mp mem).elim (fun inside => (sp.front_plain _ inside).2 rfl) clause.unsigned
      · exact sp.before_blank.eqSign_not_mem isAsciiBlank_eqSign inside
  have cut := Cuts.clause unsigned sp.signs_cases sp.after_blank clause.unquoted is
  rwa [clause_append, List.append_assoc gap, List.append_assoc gap] at cut

/-! ## All of them -/

/-- The clauses after the first are cut where they are written, -/
theorem cuts_renderRest (clauses : List (Writable × Spelling)) :
    Cuts isAsciiBlank (renderRest clauses) (clauses.map fun (clause, sp) => sp.cut sp.gap clause) := by
  induction clauses with
  | nil => exact .done (List.forall_mem_nil _)
  | cons clause clauses ih =>
    rw [renderRest, List.flatMap_cons, List.map_cons, List.append_assoc]
    exact ih.written clause.1 clause.2 clause.2.gap_blank

/-- and read as what they are. -/
theorem map_clauseOf_cut (clauses : List (Writable × Spelling)) :
    (clauses.map fun (clause, sp) => sp.cut sp.gap clause).map clauseOf =
      clauses.map fun (clause, _) => clause.pair := by
  rw [List.map_map]
  exact List.map_congr_left fun (clause, sp) _ => clauseOf_cut clause sp sp.gap_blank

/-- **What is rendered is cut into its clauses.** -/
theorem cuts_render (clauses : List (Writable × Spelling)) :
    ∃ cuts, Cuts isAsciiBlank (render clauses) cuts ∧
      cuts.map clauseOf = clauses.map fun (clause, _) => clause.pair := by
  cases clauses with
  | nil => exact ⟨[], .done (List.forall_mem_nil _), rfl⟩
  | cons clause clauses =>
    obtain ⟨clause, sp⟩ := clause
    refine ⟨_, (cuts_renderRest clauses).written clause sp (List.forall_mem_nil _), ?_⟩
    rw [List.map_cons, map_clauseOf_cut, clauseOf_cut clause sp (List.forall_mem_nil _)]
    rfl

/-- No clause that is written has an empty key, so the parser refuses none. -/
theorem named_of_pairs {cuts : List (List Char × List Char)} {clauses : List (Writable × Spelling)}
    (same : cuts.map clauseOf = clauses.map fun (clause, _) => clause.pair) : Named cuts := by
  intro cut mem empty
  have read : clauseOf cut ∈ clauses.map fun (clause, _) => clause.pair := same ▸ List.mem_map_of_mem mem
  obtain ⟨clause, _, pair⟩ := List.mem_map.mp read
  simp only [clauseOf, Writable.pair, Prod.mk.injEq] at pair
  exact clause.1.some (pair.1.trans empty)

/-! ## The ends of the text -/

/-- A clause ends in a quote, -/
theorem Spelling.getLast?_write (sp : Spelling) (clause : Writable) :
    (sp.write clause).getLast? = some quoteMark := by
  simp only [write, List.getLast?_append, List.getLast?_cons, List.getLast?_nil, Option.getD_none,
    Option.getD_some, Option.some_or]

/-- and so do several. -/
theorem getLast?_renderRest (clauses : List (Writable × Spelling)) :
    ∀ c ∈ (renderRest clauses).getLast?, c = quoteMark := by
  induction clauses with
  | nil => rintro _ ⟨⟩
  | cons clause clauses ih =>
    intro c mem
    rw [renderRest, List.flatMap_cons, List.getLast?_append, Option.mem_def, Option.or_eq_some_iff] at mem
    rcases mem with later | ⟨-, here⟩
    · exact ih c later
    · rw [List.getLast?_append, Spelling.getLast?_write] at here
      exact (Option.some.inj here).symm

/-- So trimming takes nothing of the last clause, -/
theorem getLast?_render (clauses : List (Writable × Spelling)) :
    ∀ c ∈ (render clauses).getLast?, isWhitespace c = false := by
  intro c mem
  have mark : c = quoteMark := by
    cases clauses with
    | nil => cases mem
    | cons clause clauses =>
      rw [render, List.getLast?_append, Option.mem_def, Option.or_eq_some_iff] at mem
      rcases mem with later | ⟨-, here⟩
      · exact getLast?_renderRest clauses c later
      · rw [Spelling.getLast?_write] at here
        exact (Option.some.inj here).symm
  rw [mark]
  exact isWhitespace_quoteMark

/-- nor of the first. -/
theorem head?_render (clauses : List (Writable × Spelling)) :
    ∀ c ∈ (render clauses).head?, isWhitespace c = false := by
  intro c mem
  cases clauses with
  | nil => cases mem
  | cons clause clauses =>
    obtain ⟨clause, sp⟩ := clause
    have some : sp.front ++ clause.key.toList ≠ [] := fun none =>
      clause.toList_ne_nil (List.append_eq_nil_iff.mp none).2
    rw [render, Spelling.write, List.append_assoc, List.append_assoc,
      List.head?_append_of_ne_nil _ some] at mem
    exact clause.head?_front sp c mem

/-! ## What is read, and what it matches -/

/-- A message matches if it has every clause's attribute, with its value. -/
theorem matches_iff (f : AttributeFilter) (msg : Message) :
    f.matches msg ↔ ∀ clause ∈ f.clauses, msg.attributes[clause.1]? = some clause.2 := by
  rw [«matches», List.all_eq_true]
  refine forall₂_congr fun (key, value) _ => ?_
  cases got : msg.attributes[key]? with
  | none => simp [got]
  | some got => simp [*]

/-- Without clauses every message matches. -/
theorem matches_of_isEmpty {f : AttributeFilter} (empty : f.isEmpty) (msg : Message) : f.matches msg := by
  rw [matches_iff, List.isEmpty_iff.mp empty]
  exact List.forall_mem_nil _

/-- **A filter that is rendered, in any spelling and between any white space, is read back**, and is
matched by the messages that have each clause's attribute with its value: in no order, and each as well
once as twice. -/
theorem parse_render {lead trail : List Char} (leads : Blank isWhitespace lead)
    (trails : Blank isWhitespace trail) (clauses : List (Writable × Spelling)) :
    ∃ f, parse (.ofList (lead ++ render clauses ++ trail)) = some (.ok f) ∧
      f.clauses = (clauses.map fun (clause, _) => clause.pair) ∧
      (∀ msg, f.matches msg ↔ ∀ clause ∈ clauses,
        msg.attributes[clause.1.key]? = some clause.1.value) ∧
      ∀ f' : AttributeFilter, (∀ clause, clause ∈ f'.clauses ↔ clause ∈ f.clauses) →
        ∀ msg, f'.matches msg = f.matches msg := by
  have trimmed := Text.trim_between leads trails (head?_render clauses) (getLast?_render clauses)
  obtain ⟨cuts, is, same⟩ := cuts_render clauses
  refine ⟨{ clauses := cuts.map clauseOf }, ?_, same, fun msg => ?_, fun f' members msg => ?_⟩
  · refine (parse_ok_iff _ _).mpr ⟨cuts, ?_, named_of_pairs same, rfl⟩
    rwa [trimmed, String.toList_ofList]
  · rw [matches_iff, same, List.forall_mem_map]
    exact Iff.rfl
  · rw [Bool.eq_iff_iff, matches_iff, matches_iff]
    exact forall_congr' fun clause => imp_congr_left (members clause)

/-- A value may have signs and spaces in it. -/
def sumClause : Writable where
  key := "größe"
  value := "a = b\n"
  some := by decide
  unsigned := by decide
  first := by decide
  last := by decide
  bare := by decide
  unquoted := by decide

/-- A clause with the prefix, both signs and white space wherever it may be. -/
def dottedSpelling : Spelling where
  gap := [' ', '\n']
  dotted := true
  before := [' ']
  doubled := true
  after := ['\t']
  gap_some := by decide
  gap_blank := by decide
  before_blank := by decide
  after_blank := by decide

/-- The shortest spelling. -/
def plainSpelling : Spelling where
  gap := [' ']
  dotted := false
  before := []
  doubled := false
  after := []
  gap_some := by decide
  gap_blank := by decide
  before_blank := by decide
  after_blank := by decide

/-- One clause, in two spellings, is two clauses with the same key and value. -/
theorem parse_render_twice :
    ∃ f, parse (.ofList ([' '] ++
        render [(sumClause, plainSpelling), (sumClause, dottedSpelling)] ++ ['\n'])) = some (.ok f) ∧
      f.clauses = [sumClause.pair, sumClause.pair] ∧
      (∀ msg, f.matches msg ↔ ∀ clause ∈ [(sumClause, plainSpelling), (sumClause, dottedSpelling)],
        msg.attributes[clause.1.key]? = some clause.1.value) ∧
      ∀ f' : AttributeFilter, (∀ clause, clause ∈ f'.clauses ↔ clause ∈ f.clauses) →
        ∀ msg, f'.matches msg = f.matches msg :=
  parse_render (by decide) (by decide) [(sumClause, plainSpelling), (sumClause, dottedSpelling)]

end AttributeFilter

end CePubsub
