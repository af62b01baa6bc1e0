import CePubsub.Lib.Format

/-!
# Formats of enums

An enum is written under the name of its variant, as a derived writer does by default: a variant that
holds something is an object with one member, a unit variant a string. `Variants` puts the variants
of an enum together as `Format.Rows` does the fields of a struct, as a sum of what they hold; distinct
names are all it takes for nothing to be lost.
-/

namespace Format

variable {α β γ σ : Type}

/-- A field that is always written, as `null` when it is `none`, and is `none` where it is missing. -/
def Field.nullable (key : String) (f : Format α) (some_ : ∀ a, f.write a ≠ .null) :
    Field (Option α) where
  key := key
  write a := some ((a.map f.write).getD .null)
  read
    | none | some .null => some none
    | some v => (f.read v).map some
  lossless a := by
    cases a with
    | none => rfl
    | some a =>
      have lossless := f.lossless a
      simp only [Option.map_some, Option.getD_some]
      split
      · next eq => cases eq
      · next eq => exact absurd (Option.some.inj eq) (some_ a)
      · next v _ eq => rw [← Option.some.inj eq, lossless, Option.map_some]

/-- Variants of an enum, the values of which make up an `α`: the name a value is written under and what
is written there, if the variant holds anything. -/
structure Variants (α : Type) where
  names : List String
  write : α → String × Option Json
  read : String → Option Json → Option α
  own : ∀ a, (write a).1 ∈ names
  lossless : names.Nodup → ∀ a, read (write a).1 (write a).2 = some a

namespace Variants

/-- No variants. -/
def done : Variants Empty where
  names := []
  write := nofun
  read _ _ := none
  own := nofun
  lossless _ := nofun

/-- One variant before others. -/
def variant (name : String) (f : Format β) (others : Variants γ) : Variants (β ⊕ γ) where
  names := name :: others.names
  write
    | .inl b => (name, some (f.write b))
    | .inr c => others.write c
  read n body :=
    if n = name then (body.bind f.read).map .inl else (others.read n body).map .inr
  own
    | .inl _ => List.mem_cons_self
    | .inr c => List.mem_cons_of_mem _ (others.own c)
  lossless distinct a := by
    obtain ⟨fresh, rest⟩ := List.nodup_cons.mp distinct
    cases a with
    | inl b => simp only [if_true, Option.bind_some, f.lossless, Option.map_some]
    | inr c =>
      have other : (others.write c).1 ≠ name := fun same => fresh (same ▸ others.own c)
      simp only [if_neg other, others.lossless rest, Option.map_some]

/-- One variant that holds nothing before others. -/
def unit (name : String) (others : Variants γ) : Variants (Unit ⊕ γ) where
  names := name :: others.names
  write
    | .inl () => (name, none)
    | .inr c => others.write c
  read n body :=
    if n = name then if body.isNone then some (.inl ()) else none
    else (others.read n body).map .inr
  own
    | .inl _ => List.mem_cons_self
    | .inr c => List.mem_cons_of_mem _ (others.own c)
  lossless distinct a := by
    obtain ⟨fresh, rest⟩ := List.nodup_cons.mp distinct
    cases a with
    | inl u => simp only [if_true, Option.isNone_none]
    | inr c =>
      have other : (others.write c).1 ≠ name := fun same => fresh (same ▸ others.own c)
      simp only [if_neg other, others.lossless rest, Option.map_some]

end Variants

/-- An enum with the variants given, the names of which are distinct. -/
def enum (variants : Variants α) (split : σ → α) (make : α → σ) (distinct : variants.names.Nodup)
    (whole : ∀ s, make (split s) = s) : Format σ where
  write s :=
    match variants.write (split s) with
    | (name, some body) => .obj [(name, body)]
    | (name, none) => .str name
  read
    | .obj [(name, body)] => (variants.read name (some body)).map make
    | .str name => (variants.read name none).map make
    | _ => none
  lossless s := by
    have lossless := variants.lossless distinct (split s)
    cases written : variants.write (split s) with
    | mk name body =>
      rw [written] at lossless
      cases body with
      | none => simp only [lossless, Option.map_some, whole]
      | some body => simp only [lossless, Option.map_some, whole]

end Format
