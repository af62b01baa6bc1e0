import CePubsub.Filter

/-!
# What the filter parser reads

The parser looks at bytes and cuts slices out of its text. As what it looks for is ASCII, a turn of its
loop is told in characters as well (`parseFrom_at`): text, a sign, perhaps a second one, white space, a
quoted value. `Cuts` is the way the text is cut so, of which there is only one (`Cuts.unique`), and the
parser accepts exactly what can be cut so with a name before every sign (`parse_ok_iff`). It answers
always: no slice is cut inside a character (`parse_ne_none`).
-/

namespace CePubsub

namespace AttributeFilter

open Text (At isAsciiBlank)

/-- The equals sign, as the character the scanner looks for. -/
def eqSign : Char := Text.ascii equals

/-- The quote, as the character the scanner looks for. -/
def quoteMark : Char := Text.ascii quote

/-- What one turn of the parser's loop makes of the text at its position. -/
inductive Cutting where
  | done
  | malformed
  | clause (key value rest : List Char)

/-- The text after an operator's first sign, without its second. -/
def afterSign : List Char → List Char
  | [] => []
  | c :: cs => if c = eqSign then cs else c :: cs

/-- A turn of the loop, told in characters. -/
def cut (cs : List Char) : Cutting :=
  let body := cs.dropWhile isAsciiBlank
  if body = [] then .done
  else
    match body.dropWhile (· != eqSign) with
    | [] => .malformed
    | _ :: after =>
      match (afterSign after).dropWhile isAsciiBlank with
      | [] => .malformed
      | c :: text =>
        if c = quoteMark then
          match text.dropWhile (· != quoteMark) with
          | [] => .malformed
          | _ :: rest =>
            .clause (body.takeWhile (· != eqSign)) (text.takeWhile (· != quoteMark)) rest
        else .malformed

theorem equals_lt : equals < 0x80 := by decide

theorem quote_lt : quote < 0x80 := by decide

/-- The byte search for an equals sign is a search over characters. -/
theorem reads_equals : Text.Reads (· != equals) (· != eqSign) := Text.reads_bne equals_lt

/-- The byte search for a quote is a search over characters. -/
theorem reads_quote : Text.Reads (· != quote) (· != quoteMark) := Text.reads_bne quote_lt

/-- Past the second sign of an operator, if it has one. -/
theorem at_afterSign {bytes : Bytes} {i : Nat} {cs : List Char} (h : At bytes i cs) :
    At bytes (if bytes[i]? = some equals then i + 1 else i) (afterSign cs) := by
  split
  · next sign =>
    obtain ⟨rest, rfl⟩ := (h.byte_iff equals_lt).mp sign
    exact h.next equals_lt
  · next other =>
    have same : afterSign cs = cs := by
      cases cs with
      | nil => rfl
      | cons c cs =>
        refine if_neg fun sign : c = eqSign => other ((h.byte_iff equals_lt).mpr ⟨cs, ?_⟩)
        rw [sign, eqSign]
    rwa [same]

/-- **One turn of the loop**, at a position where `cs` is left. -/
theorem parseFrom_at {s : String} {i : Nat} {cs : List Char} (h : At (Text.bytes s) i cs) :
    match cut cs with
    | .done => parseFrom s (Text.bytes s) i = some (.ok [])
    | .malformed => ∃ why, parseFrom s (Text.bytes s) i = some (.error why)
    | .clause key value rest => ∃ j, At (Text.bytes s) j rest ∧
        parseFrom s (Text.bytes s) i =
          if (keyOf (.ofList key)).isEmpty then some (.error "filter clause has an empty key")
          else (parseFrom s (Text.bytes s) j).map
            fun read => read.map ((keyOf (.ofList key), .ofList value) :: ·) := by
  have start := h.skip Text.reads_isAsciiWhitespace
  rw [parseFrom, cut]
  simp only
  -- each scan of bytes is one of characters, from the position where the last one stopped
  by_cases none : cs.dropWhile isAsciiBlank = []
  · rw [if_pos none]
    have past := mt start.lt_iff.mp (not_not.mpr none)
    simp only [if_pos (Nat.le_of_not_lt past), ite_self]
  · rw [if_neg none]
    have inside := start.lt_iff.mpr none
    have before := Nat.lt_of_le_of_lt (Text.le_skipWhile _ _ i) inside
    rw [if_pos before, if_neg (Nat.not_le_of_lt inside)]
    have key := start.skip reads_equals
    have cutKey := start.slice reads_equals
    cases left : (cs.dropWhile isAsciiBlank).dropWhile (· != eqSign) with
    | nil =>
      have past := mt key.lt_iff.mp (not_not.mpr left)
      exact ⟨_, if_pos (Nat.le_of_not_lt past)⟩
    | cons d after =>
      rw [if_neg (Nat.not_le_of_lt (key.lt_iff.mpr (left ▸ List.cons_ne_nil d after))), cutKey]
      obtain rfl := Text.eq_of_dropWhile_bne left
      rw [left] at key
      generalize Text.skipWhile (· != equals) _ _ = keyEnd at key ⊢
      have gap : At (Text.bytes s)
          (if (Text.bytes s)[keyEnd + 1]? = some equals then keyEnd + 2 else keyEnd + 1)
          (afterSign after) := at_afterSign (key.next equals_lt)
      simp only
      generalize (if (Text.bytes s)[keyEnd + 1]? = some equals then keyEnd + 2 else keyEnd + 1) =
        gapStart at gap ⊢
      -- what follows the operator is the white space before a quote, or an error
      have opening := gap.skip Text.reads_isAsciiWhitespace
      cases text : (afterSign after).dropWhile isAsciiBlank with
      | nil =>
        rw [text] at opening
        refine ⟨_, if_pos fun quoted => ?_⟩
        obtain ⟨_, some⟩ := (opening.byte_iff quote_lt).mp quoted
        cases some
      | cons c text' =>
        rw [text] at opening
        by_cases mark : c = quoteMark
        · subst mark
          have quoted := (opening.byte_iff quote_lt).mpr ⟨text', rfl⟩
          rw [if_neg (not_not.mpr quoted)]
          simp only [if_true]
          have value := opening.next quote_lt
          have closing := value.skip reads_quote
          have cutValue := value.slice reads_quote
          cases last : text'.dropWhile (· != quoteMark) with
          | nil =>
            have past := mt closing.lt_iff.mp (not_not.mpr last)
            exact ⟨_, if_pos (Nat.le_of_not_lt past)⟩
          | cons d rest =>
            obtain rfl := Text.eq_of_dropWhile_bne last
            rw [last] at closing
            refine ⟨_, closing.next quote_lt, ?_⟩
            rw [if_neg (Nat.not_le_of_lt (closing.lt_iff.mpr (List.cons_ne_nil _ _))), cutValue]
        · simp only [if_neg mark]
          refine ⟨_, if_pos fun quoted => mark ?_⟩
          obtain ⟨_, some⟩ := (opening.byte_iff quote_lt).mp quoted
          exact (List.cons.inj some).1

/-! ## The text, cut at its operators and quotes -/

/-- A text of nothing but white space. -/
def Blank (blank : Char → Bool) (cs : List Char) : Prop := ∀ c ∈ cs, blank c

instance (blank : Char → Bool) (cs : List Char) : Decidable (Blank blank cs) :=
  List.decidableBAll (fun c => blank c) cs

/-- Text cut into clauses as the parser cuts it: what is before a sign, a second sign or none, white
space, and what is between two quotes. -/
inductive Cuts (blank : Char → Bool) : List Char → List (List Char × List Char) → Prop where
  | done {tail} : Blank blank tail → Cuts blank tail []
  | clause {key signs gap value rest cuts} : eqSign ∉ key → signs = [] ∨ signs = [eqSign] →
      Blank blank gap → quoteMark ∉ value → Cuts blank rest cuts →
      Cuts blank (key ++ eqSign :: (signs ++ (gap ++ quoteMark :: (value ++ quoteMark :: rest))))
        ((key, value) :: cuts)

/-- A text cut with a narrower notion of white space is cut so with a wider one. -/
theorem Cuts.mono {p q : Char → Bool} (le : ∀ c, p c → q c) {cs : List Char}
    {cuts : List (List Char × List Char)} (h : Cuts p cs cuts) : Cuts q cs cuts := by
  induction h with
  | done tail => exact .done fun c mem => le c (tail c mem)
  | clause key signs gap value _ ih =>
    exact .clause key signs (fun c mem => le c (gap c mem)) value ih

section Unique

variable {blank : Char → Bool} (sign : blank eqSign = false) (mark : blank quoteMark = false)

include sign

/-- There is no equals sign in white space. -/
theorem Blank.eqSign_not_mem {cs : List Char} (h : Blank blank cs) : eqSign ∉ cs := fun mem =>
  Bool.eq_false_iff.mp sign (h eqSign mem)

/-- A second sign is skipped, and only a second sign. -/
theorem afterSign_append {signs gap tail : List Char} (signs_ok : signs = [] ∨ signs = [eqSign])
    (gap_ok : Blank blank gap) :
    afterSign (signs ++ (gap ++ quoteMark :: tail)) = gap ++ quoteMark :: tail := by
  rcases signs_ok with rfl | rfl
  · cases gap with
    | nil => rw [List.nil_append, List.nil_append, afterSign, if_neg (by decide)]
    | cons c gap =>
      have other : c ≠ eqSign := by
        rintro rfl
        exact gap_ok.eqSign_not_mem sign List.mem_cons_self
      rw [List.nil_append, List.cons_append, afterSign, if_neg other]
  · rw [List.singleton_append, afterSign, if_pos rfl]

include mark

/-- Text is cut in one way, if signs and quotes are not white space. -/
theorem Cuts.unique {cs : List Char} {cuts cuts' : List (List Char × List Char)}
    (h : Cuts blank cs cuts) (h' : Cuts blank cs cuts') : cuts = cuts' := by
  have unquoted : ∀ {gap}, Blank blank gap → quoteMark ∉ gap := fun gap mem =>
    Bool.eq_false_iff.mp mark (gap quoteMark mem)
  induction h generalizing cuts' with
  | @done tail blank =>
    generalize tail = cs at *
    cases h' with
    | done => rfl
    | clause => exact absurd (List.mem_append_right _ List.mem_cons_self) (blank.eqSign_not_mem sign)
  | @clause key signs gap value rest cuts key_ok signs_ok gap_ok value_ok _ ih =>
    generalize whole : key ++ eqSign :: _ = cs at h'
    cases h' with
    | done tail =>
      subst whole
      exact absurd (List.mem_append_right _ List.mem_cons_self) (tail.eqSign_not_mem sign)
    | clause key_ok' signs_ok' gap_ok' value_ok' rest' =>
      obtain ⟨rfl, operators⟩ := Text.append_cons_inj key_ok key_ok' whole
      have gaps := congrArg afterSign operators
      rw [afterSign_append sign signs_ok gap_ok, afterSign_append sign signs_ok' gap_ok'] at gaps
      obtain ⟨-, values⟩ := Text.append_cons_inj (unquoted gap_ok) (unquoted gap_ok') gaps
      obtain ⟨rfl, rfl⟩ := Text.append_cons_inj value_ok value_ok' values
      rw [ih rest']

end Unique

theorem isAsciiBlank_eqSign : isAsciiBlank eqSign = false := by decide

theorem isAsciiBlank_quoteMark : isAsciiBlank quoteMark = false := by decide

/-- The scan ends exactly where only white space is left. -/
theorem cut_eq_done_iff {cs : List Char} : cut cs = .done ↔ Blank isAsciiBlank cs := by
  rw [cut]
  split
  · next none => exact iff_of_true rfl (List.dropWhile_eq_nil_iff.mp none)
  · next some =>
    refine iff_of_false ?_ (mt List.dropWhile_eq_nil_iff.mpr some)
    split
    · rintro ⟨⟩
    · split
      · rintro ⟨⟩
      · split
        · split <;> rintro ⟨⟩
        · rintro ⟨⟩

/-- What one turn cuts off the front. -/
theorem cut_clause {key signs gap value rest : List Char} (key_ok : eqSign ∉ key)
    (signs_ok : signs = [] ∨ signs = [eqSign]) (gap_ok : Blank isAsciiBlank gap)
    (value_ok : quoteMark ∉ value) :
    cut (key ++ eqSign :: (signs ++ (gap ++ quoteMark :: (value ++ quoteMark :: rest)))) =
      .clause (key.dropWhile isAsciiBlank) value rest := by
  have body : ∀ tail, (key ++ eqSign :: tail).dropWhile isAsciiBlank =
      key.dropWhile isAsciiBlank ++ eqSign :: tail := by
    intro tail
    rw [List.dropWhile_append, List.dropWhile_cons_of_neg (by decide)]
    split
    · next empty => rw [List.isEmpty_iff.mp empty, List.nil_append]
    · rfl
  have key_ok' : eqSign ∉ key.dropWhile isAsciiBlank := fun mem =>
    key_ok ((List.dropWhile_sublist _).subset mem)
  have opening : ∀ tail, (gap ++ quoteMark :: tail).dropWhile isAsciiBlank = quoteMark :: tail := by
    intro tail
    rw [List.dropWhile_append_of_pos gap_ok, List.dropWhile_cons_of_neg (by decide)]
  rw [cut, body]
  obtain ⟨taken, left⟩ := Text.scan_append_cons key_ok'
    (signs ++ (gap ++ quoteMark :: (value ++ quoteMark :: rest)))
  obtain ⟨taken', left'⟩ := Text.scan_append_cons value_ok rest
  simp only [left, taken, afterSign_append isAsciiBlank_eqSign signs_ok gap_ok, opening, left', taken',
    if_true]
  rw [if_neg (by simp)]

/-- What a sign may be followed by. -/
theorem exists_signs (cs : List Char) :
    ∃ signs, (signs = [] ∨ signs = [eqSign]) ∧ cs = signs ++ afterSign cs := by
  cases cs with
  | nil => exact ⟨[], .inl rfl, rfl⟩
  | cons c cs =>
    by_cases sign : c = eqSign
    · exact ⟨[eqSign], .inr rfl, by rw [afterSign, if_pos sign, sign, List.singleton_append]⟩
    · exact ⟨[], .inl rfl, by rw [afterSign, if_neg sign, List.nil_append]⟩

/-- And that what it cuts off is a clause. -/
theorem of_cut_clause {cs key value rest : List Char} (is : cut cs = .clause key value rest) :
    ∃ blank signs gap, Blank isAsciiBlank blank ∧ eqSign ∉ key ∧ (signs = [] ∨ signs = [eqSign]) ∧
      Blank isAsciiBlank gap ∧ quoteMark ∉ value ∧ cs = blank ++ key ++
        eqSign :: (signs ++ (gap ++ quoteMark :: (value ++ quoteMark :: rest))) := by
  have whole := List.takeWhile_append_dropWhile (p := isAsciiBlank) (l := cs)
  rw [cut] at is
  split at is
  · cases is
  · split at is
    · cases is
    · next d after left =>
      obtain rfl := Text.eq_of_dropWhile_bne left
      split at is
      · cases is
      · next c text opening =>
        split at is
        · next mark =>
          split at is
          · cases is
          · next d rest' closing =>
            obtain rfl := Text.eq_of_dropWhile_bne closing
            cases is
            subst mark
            obtain ⟨signs, signs_ok, operator⟩ := exists_signs after
            refine ⟨cs.takeWhile isAsciiBlank, signs, (afterSign after).takeWhile isAsciiBlank,
              fun c => List.mem_takeWhile_imp, Text.not_mem_takeWhile_bne eqSign _, signs_ok,
              fun c => List.mem_takeWhile_imp, Text.not_mem_takeWhile_bne quoteMark _, ?_⟩
            rw [← closing, List.takeWhile_append_dropWhile, ← opening, List.takeWhile_append_dropWhile,
              ← operator, ← left, List.append_assoc, List.takeWhile_append_dropWhile, whole]
        · cases is

/-- Each clause takes something off the text, so the scan terminates. -/
theorem length_lt_of_cut_clause {cs key value rest : List Char} (is : cut cs = .clause key value rest) :
    rest.length < cs.length := by
  obtain ⟨_, _, _, -, -, -, -, -, rfl⟩ := of_cut_clause is
  simp only [List.length_append, List.length_cons]
  omega

/-! ## What the parser accepts -/

/-- **The parser answers** from every position between characters. -/
theorem parseFrom_ne_none {s : String} {i : Nat} {cs : List Char} (h : At (Text.bytes s) i cs) :
    parseFrom s (Text.bytes s) i ≠ none := by
  induction size : cs.length using Nat.strong_induction_on generalizing i cs with
  | _ n ih =>
    have turn := parseFrom_at h
    cases front : cut cs with
    | done =>
      rw [front] at turn
      exact Option.ne_none_iff_exists'.mpr ⟨_, turn⟩
    | malformed =>
      rw [front] at turn
      obtain ⟨why, failed⟩ := turn
      exact Option.ne_none_iff_exists'.mpr ⟨_, failed⟩
    | clause key value rest =>
      rw [front] at turn
      obtain ⟨j, later, same⟩ := turn
      rw [same]
      split
      · exact Option.some_ne_none _
      · exact mt Option.map_eq_none_iff.mp (ih _ (size ▸ length_lt_of_cut_clause front) later rfl)

/-- White space before a key is no part of it. -/
theorem keyOf_append {blank : List Char} (h : Blank isAsciiBlank blank) (key : List Char) :
    keyOf (.ofList (blank ++ key)) = keyOf (.ofList key) := by
  rw [keyOf, keyOf, Text.trim_append fun c mem => Text.isWhitespace_of_isAsciiBlank (h c mem)]

/-- Nor does it matter who skips it. -/
theorem keyOf_dropWhile (key : List Char) :
    keyOf (.ofList (key.dropWhile isAsciiBlank)) = keyOf (.ofList key) := by
  have blank : Blank isAsciiBlank (key.takeWhile isAsciiBlank) := fun c => List.mem_takeWhile_imp
  rw [← keyOf_append blank, List.takeWhile_append_dropWhile]

/-- The clause the parser makes of a key's text and a value's. -/
def clauseOf (cut : List Char × List Char) : String × String := (keyOf (.ofList cut.1), .ofList cut.2)

/-- White space before a clause is no part of it. -/
theorem clauseOf_append {blank : List Char} (h : Blank isAsciiBlank blank) (key value : List Char) :
    clauseOf (blank ++ key, value) = clauseOf (key, value) := by
  simp only [clauseOf, keyOf_append h]

/-- Nor does it matter who skips it. -/
theorem clauseOf_dropWhile (key value : List Char) :
    clauseOf (key.dropWhile isAsciiBlank, value) = clauseOf (key, value) := by
  simp only [clauseOf, keyOf_dropWhile]

/-- Every key has a name. -/
def Named (cuts : List (List Char × List Char)) : Prop := ∀ cut ∈ cuts, keyOf (.ofList cut.1) ≠ ""

instance (cuts : List (List Char × List Char)) : Decidable (Named cuts) :=
  inferInstanceAs (Decidable (∀ cut ∈ cuts, keyOf (.ofList cut.1) ≠ ""))

/-- **What is read from a position on**: the clauses the text left there is cut into. -/
theorem parseFrom_ok_iff {s : String} {i : Nat} {cs : List Char} (h : At (Text.bytes s) i cs)
    (clauses : List (String × String)) :
    parseFrom s (Text.bytes s) i = some (.ok clauses) ↔
      ∃ cuts, Cuts isAsciiBlank cs cuts ∧ Named cuts ∧ clauses = cuts.map clauseOf := by
  induction size : cs.length using Nat.strong_induction_on generalizing i cs clauses with
  | _ n ih =>
    have turn := parseFrom_at h
    cases front : cut cs with
    | done =>
      rw [front] at turn
      have blank := cut_eq_done_iff.mp front
      have same : parseFrom s (Text.bytes s) i = some (.ok []) := turn
      rw [same, Option.some.injEq, Except.ok.injEq]
      constructor
      · rintro rfl
        exact ⟨[], .done blank, List.forall_mem_nil _, rfl⟩
      · rintro ⟨cuts, is, -, rfl⟩
        rw [← Cuts.unique isAsciiBlank_eqSign isAsciiBlank_quoteMark (.done blank) is]
        rfl
    | malformed =>
      rw [front] at turn
      obtain ⟨why, failed⟩ := turn
      rw [failed]
      refine iff_of_false (by rintro ⟨⟩) ?_
      rintro ⟨cuts, is, -, -⟩
      cases is with
      | done blank => cases front.symm.trans (cut_eq_done_iff.mpr blank)
      | clause key signs gap value _ => cases front.symm.trans (cut_clause key signs gap value)
    | clause key value rest =>
      rw [front] at turn
      obtain ⟨j, later, same⟩ := turn
      obtain ⟨blank, signs, gap, blank_ok, key_ok, signs_ok, gap_ok, value_ok, rfl⟩ :=
        of_cut_clause front
      have read := fun clauses =>
        ih _ (size ▸ length_lt_of_cut_clause front) later clauses rfl
      rw [same]
      constructor
      · intro parsed
        split at parsed
        · cases parsed
        · next named =>
          cases others : parseFrom s (Text.bytes s) j with
          | none => rw [others] at parsed; cases parsed
          | some result =>
            rw [others] at parsed
            cases result with
            | error why => cases parsed
            | ok clauses' =>
              cases parsed
              obtain ⟨cuts, is, names, rfl⟩ := (read clauses').mp others
              have unsigned : eqSign ∉ blank ++ key := fun mem => (List.mem_append.mp mem).elim
                (blank_ok.eqSign_not_mem isAsciiBlank_eqSign) key_ok
              refine ⟨_, .clause unsigned signs_ok gap_ok value_ok is, ?_, ?_⟩
              · refine List.forall_mem_cons.mpr ⟨fun empty => named ?_, names⟩
                rw [keyOf_append blank_ok] at empty
                exact String.isEmpty_iff.mpr empty
              · rw [List.map_cons, clauseOf_append blank_ok]
                rfl
      · rintro ⟨cuts, is, names, rfl⟩
        generalize whole : blank ++ key ++ _ = cs at is front
        cases is with
        | done blank => cases front.symm.trans (cut_eq_done_iff.mpr blank)
        | clause key_ok' signs_ok' gap_ok' value_ok' is =>
          cases front.symm.trans (cut_clause key_ok' signs_ok' gap_ok' value_ok')
          obtain ⟨named, names⟩ := List.forall_mem_cons.mp names
          have some : ¬ (keyOf (.ofList (_ : List Char))).isEmpty = true := fun empty =>
            named (keyOf_dropWhile _ ▸ String.isEmpty_iff.mp empty)
          rw [if_neg some, (read _).mpr ⟨_, is, names, rfl⟩, List.map_cons, ← clauseOf_dropWhile]
          rfl

/-- Empty text is read as any other. -/
theorem parse_eq (s : String) :
    parse s = (parseFrom (Text.trim s) (Text.bytes (Text.trim s)) 0).map
      fun read => read.map fun clauses => { clauses } := by
  rw [parse]
  split
  · next empty =>
    rw [String.isEmpty_iff.mp empty, parseFrom, if_neg (by decide)]
    rfl
  · rfl

/-- The fuel of the scan suffices for every string. -/
theorem parse_ne_none (s : String) : parse s ≠ none := by
  rw [parse_eq]
  exact mt Option.map_eq_none_iff.mp (parseFrom_ne_none (Text.at_zero (Text.trim s)))

/-- **What the parser accepts**: text that is cut, trimmed, into clauses with a name, and these. -/
theorem parse_ok_iff (s : String) (f : AttributeFilter) :
    parse s = some (.ok f) ↔
      ∃ cuts, Cuts isAsciiBlank (Text.trim s).toList cuts ∧ Named cuts ∧
        f.clauses = cuts.map clauseOf := by
  rw [← parseFrom_ok_iff (Text.at_zero (Text.trim s)), parse_eq]
  cases parseFrom (Text.trim s) (Text.bytes (Text.trim s)) 0 with
  | none => exact iff_of_false (by rintro ⟨⟩) (by rintro ⟨⟩)
  | some read =>
    cases read with
    | error why => exact iff_of_false (by rintro ⟨⟩) (by rintro ⟨⟩)
    | ok clauses =>
      rw [Option.map_some, Except.map, Option.some.injEq, Except.ok.injEq, Option.some.injEq,
        Except.ok.injEq]
      exact ⟨fun same => same ▸ rfl, fun same => same ▸ rfl⟩

end AttributeFilter

end CePubsub
