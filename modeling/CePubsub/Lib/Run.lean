import Mathlib.Data.List.Basic
import Mathlib.Data.List.Induction

/-!
# Runs of a deterministic machine

A machine is a step function `step : σ → ι → σ`; a run folds it over a list of inputs. The module
packages the one induction a safety argument needs: a property that holds at the start and that
every step keeps holds at the end of every run (`run_invariant`), and, when the steps keep it only
under a condition on the state before the step and its input, at the end of every run whose steps
all meet that condition (`run_invariant_along`). Where the condition is exact for one step it is
exact for a run (`throughout_iff_along`).

`Along` is that condition read along a run. A prefix of such a run meets it too
(`Along.of_append`), so an invariant of the end of every run is an invariant of every state a run
passes through. A `Chronicle` is a history that was written so.

Where a machine's states can be saved and loaded without loss, a run may be cut wherever one likes:
`resume` goes on from one snapshot, `relay` from as many as there are segments, and both end where
the whole run does.
-/

namespace Run

variable {σ ι : Type*} (step : σ → ι → σ)

/-- The state a machine reaches from `s` over a list of inputs. -/
def run (s : σ) (is : List ι) : σ := is.foldl step s

@[simp] theorem run_nil (s : σ) : run step s [] = s := rfl

@[simp] theorem run_cons (s : σ) (i : ι) (is : List ι) :
    run step s (i :: is) = run step (step s i) is := rfl

/-- A run in two parts. -/
theorem run_append (s : σ) (is js : List ι) :
    run step s (is ++ js) = run step (run step s is) js :=
  List.foldl_append

@[simp] theorem run_concat (s : σ) (is : List ι) (i : ι) :
    run step s (is ++ [i]) = step (run step s is) i := by
  rw [run_append, run_cons, run_nil]

/-- Every step of a run meets `C`, a condition on the state before the step and on its input. -/
def Along (C : σ → ι → Prop) : σ → List ι → Prop
  | _, [] => True
  | s, i :: is => C s i ∧ Along C (step s i) is

variable {step}

/-- A condition along a run in two parts. -/
theorem along_append {C : σ → ι → Prop} {s : σ} {is js : List ι} :
    Along step C s (is ++ js) ↔ Along step C s is ∧ Along step C (run step s is) js := by
  induction is generalizing s with
  | nil => simp only [List.nil_append, Along, run_nil, true_and]
  | cons i is ih => simp only [List.cons_append, Along, run_cons, ih, and_assoc]

/-- A prefix of a run that meets a condition along its steps meets it too. -/
theorem Along.of_append {C : σ → ι → Prop} {s : σ} {is js : List ι}
    (h : Along step C s (is ++ js)) : Along step C s is :=
  (along_append.mp h).1

/-- A condition along a run and at its last step. -/
theorem along_concat {C : σ → ι → Prop} {s : σ} {is : List ι} {i : ι} :
    Along step C s (is ++ [i]) ↔ Along step C s is ∧ C (run step s is) i := by
  simp only [along_append, Along, and_true]

/-- A condition on the inputs alone is met along a run if every input meets it. -/
theorem along_of_forall_mem {C : ι → Prop} {s : σ} {is : List ι} (all : ∀ i ∈ is, C i) :
    Along step (fun _ i => C i) s is := by
  induction is generalizing s with
  | nil => trivial
  | cons i is ih =>
    exact ⟨all i List.mem_cons_self, ih fun j mem => all j (List.mem_cons_of_mem i mem)⟩

/-- **The run rule under a condition**: a property the steps keep wherever they meet `C` holds at
the end of every run whose steps all meet it. -/
theorem run_invariant_along {C : σ → ι → Prop} {P : σ → Prop}
    (keeps : ∀ s i, P s → C s i → P (step s i)) {s : σ} {is : List ι} (start : P s)
    (along : Along step C s is) : P (run step s is) := by
  induction is generalizing s with
  | nil => exact start
  | cons i is ih => exact ih (keeps s i start along.1) along.2

/-- **The run rule**: a property every step keeps holds at the end of every run. -/
theorem run_invariant {P : σ → Prop} (keeps : ∀ s i, P s → P (step s i)) {s : σ}
    (start : P s) (is : List ι) : P (run step s is) := by
  induction is generalizing s with
  | nil => exact start
  | cons i is ih => exact ih (keeps s i start)

/-- **The exact condition of a run**: where a step from a good state leads to a good one exactly if the
step meets `C`, every state a run passes through is good exactly if every step meets it. `I` is what
is known of every state in any case. -/
theorem throughout_iff_along {C : σ → ι → Prop} {I P : σ → Prop}
    (stable : ∀ s i, I s → I (step s i)) (exact : ∀ s i, I s → P s → (P (step s i) ↔ C s i)) {s : σ}
    (known : I s) (start : P s) (is : List ι) :
    (∀ pre rest, is = pre ++ rest → P (run step s pre)) ↔ Along step C s is := by
  induction is generalizing s with
  | nil =>
    refine ⟨fun _ => trivial, fun _ pre rest split => ?_⟩
    obtain ⟨rfl, -⟩ := List.append_eq_nil_iff.mp split.symm
    exact start
  | cons i is ih =>
    rw [Along, ← exact s i known start]
    constructor
    · intro all
      have next : P (step s i) := all [i] is rfl
      refine ⟨next, (ih (stable s i known) next).mp fun pre rest split => ?_⟩
      exact all (i :: pre) rest (congrArg (i :: ·) split)
    · rintro ⟨next, along⟩ pre rest split
      cases pre with
      | nil => exact start
      | cons first pre =>
        obtain ⟨rfl, tail⟩ := List.cons.inj split
        exact (ih (stable s i known) next).mpr along pre rest tail

/-- **Two machines in step**: a relation the paired steps keep relates the ends of the two runs
over one list of inputs. -/
theorem run_simulation {τ : Type*} {step' : τ → ι → τ} {R : σ → τ → Prop}
    (keeps : ∀ s t i, R s t → R (step s i) (step' t i)) {s : σ} {t : τ} (start : R s t)
    (is : List ι) : R (run step s is) (run step' t is) := by
  induction is generalizing s t with
  | nil => exact start
  | cons i is ih => exact ih (keeps s t i start)

/-- **A machine in step with what only grows**: where every step under a condition takes what a state is
related to no way back, one end of a run is related to something that is past what every state on the
way is related to. -/
theorem run_growth_along {τ : Type*} {C : σ → ι → Prop} {R : σ → τ → Prop} {G : τ → τ → Prop}
    (refl : ∀ t, G t t) (trans : ∀ t u v, G t u → G u v → G t v)
    (keeps : ∀ s t i, R s t → C s i → ∃ t', G t t' ∧ R (step s i) t') {s : σ} {t : τ} (start : R s t)
    {is : List ι} (along : Along step C s is) :
    ∃ t', R (run step s is) t' ∧ ∀ pre, pre <+: is → ∃ u, G u t' ∧ R (run step s pre) u := by
  induction is using List.reverseRecOn with
  | nil =>
    refine ⟨t, start, fun pre is => ⟨t, refl t, ?_⟩⟩
    obtain rfl := List.prefix_nil.mp is
    exact start
  | append_singleton is i ih =>
    obtain ⟨along, last⟩ := along_concat.mp along
    obtain ⟨t', related, past⟩ := ih along
    obtain ⟨t'', grown, next⟩ := keeps _ t' i related last
    rw [← run_concat step] at next
    refine ⟨t'', next, fun pre is => ?_⟩
    rcases List.prefix_concat_iff.mp is with rfl | before
    · exact ⟨t'', refl t'', next⟩
    · obtain ⟨u, earlier, related⟩ := past pre before
      exact ⟨u, trans u t' t'' earlier grown, related⟩

/-! ## Histories -/

section Histories

/-- A list as the run that wrote it, entry by entry: each stands in a relation to those before it. -/
def Chronicle (P : List ι → ι → Prop) : List ι → Prop := Along (fun past i => past ++ [i]) P []

theorem run_record (past more : List ι) : run (fun past i => past ++ [i]) past more = past ++ more := by
  induction more generalizing past with
  | nil => rw [run_nil, List.append_nil]
  | cons i more ih => rw [run_cons, ih, List.append_assoc, List.singleton_append]

variable {P : List ι → ι → Prop} {past : List ι} {i : ι}

theorem chronicle_nil : Chronicle P [] := trivial

/-- One event more. -/
theorem Chronicle.concat (h : Chronicle P past) (last : P past i) : Chronicle P (past ++ [i]) := by
  rw [Chronicle, along_concat, run_record]
  exact ⟨h, last⟩

/-- What an entry of a history was written under. -/
theorem Chronicle.at {pre post : List ι} (h : Chronicle P (pre ++ i :: post)) : P pre i := by
  have here := (along_append.mp h).2.1
  rwa [run_record] at here

end Histories

/-! ## Runs cut by snapshots -/

section Snapshots

variable {ω : Type*} {save : σ → ω} {load : ω → Option σ}

variable (step load) in
/-- Go on from a snapshot. -/
def resume (snapshot : ω) (is : List ι) : Option σ := (load snapshot).map fun s => run step s is

variable (step save load) in
/-- Run through segments of inputs, each from the snapshot of where the one before ended. -/
def relay (s : σ) : List (List ι) → Option σ
  | [] => some s
  | is :: rest => (load (save (run step s is))).bind fun t => relay t rest

/-- The snapshot of a run's first `n` steps and the rest of its inputs make up the run. -/
theorem resume_take_drop {s : σ} {is : List ι} {n : Nat}
    (lossless : load (save (run step s (is.take n))) = some (run step s (is.take n))) :
    resume step load (save (run step s (is.take n))) (is.drop n) = some (run step s is) := by
  rw [resume, lossless, Option.map_some, ← run_append, List.take_append_drop]

/-- However often a run is cut, it ends where it would have. -/
theorem relay_eq (lossless : ∀ s, load (save s) = some s) (s : σ) (segments : List (List ι)) :
    relay step save load s segments = some (run step s segments.flatten) := by
  induction segments generalizing s with
  | nil => rfl
  | cons is rest ih => rw [relay, lossless, Option.bind_some, ih, List.flatten_cons, run_append]

end Snapshots

/-- Of two places in a history one comes first, or they are one. -/
theorem places_cases {α : Type} {before before' later later' : List α} {e e' : α}
    (same : before ++ e :: later = before' ++ e' :: later') :
    (before = before' ∧ e = e') ∨
      (∃ mid, before' = before ++ e :: mid ∧ later = mid ++ e' :: later') ∨
      ∃ mid, before = before' ++ e' :: mid ∧ later' = mid ++ e :: later := by
  rcases List.append_eq_append_iff.mp same with ⟨mid, rfl, rest⟩ | ⟨mid, rfl, rest⟩
  · cases mid with
    | nil =>
      obtain ⟨rfl, -⟩ := List.cons.inj rest
      exact .inl ⟨(List.append_nil before).symm, rfl⟩
    | cons first mid =>
      obtain ⟨rfl, rfl⟩ := List.cons.inj rest
      exact .inr (.inl ⟨mid, rfl, rfl⟩)
  · cases mid with
    | nil =>
      obtain ⟨rfl, -⟩ := List.cons.inj rest
      exact .inl ⟨List.append_nil before', rfl⟩
    | cons first mid =>
      obtain ⟨rfl, rfl⟩ := List.cons.inj rest
      exact .inr (.inr ⟨mid, rfl, rfl⟩)

end Run
