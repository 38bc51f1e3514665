import Aggregation.Proofs.Dependence
import Aggregation.Proofs.Derivation

/-!
# Skeletons

Bindings fill in operands and nothing else.  Whatever is bound for an
aggregation, and however much it looks like stages itself, the pipelines that it
compiles to have one skeleton: the same operators in the same places, the same
static values, and the same collections united, at every depth.
-/

namespace Aggregation

/-- Two stages of one form: a single field each, under the same operator, with
the same value but for an operand that is bound, or that is bound further in. -/
inductive SameForm : Document → Document → Prop
  | bound {operator : StageOperator} {operand operand' : Value}
      (hoperator :
        operator = .skip ∨ operator = .limit ∨ operator = .matching) :
      SameForm [(operator.token, operand)] [(operator.token, operand')]
  | static {operator : StageOperator} {value : Value}
      (hoperator : operator = .project ∨ operator = .group ∨ operator = .sort) :
      SameForm [(operator.token, value)] [(operator.token, value)]
  | union {collection : String} {pipeline pipeline' : Pipeline}
      (hnested : List.Forall₂ SameForm pipeline pipeline') :
      SameForm
        [(StageOperator.unionWith.token,
          .document [("coll", .string collection),
            ("pipeline", .array (pipeline.map .document))])]
        [(StageOperator.unionWith.token,
          .document [("coll", .string collection),
            ("pipeline", .array (pipeline'.map .document))])]

/-- Pipelines with stages of the same form in the same places. -/
def SameSkeleton (pipeline pipeline' : Pipeline) : Prop :=
  List.Forall₂ SameForm pipeline pipeline'

namespace Stage

variable {params params' : Params} {stage : Stage} {value value' : Value}

theorem Yields.unique (h : stage.Yields params value)
    (h' : stage.Yields params value') :
    value = value' := by
  have hsame :=
    calc
      (.ok [(stage.operator, value)] : Except CompileError Document) =
          stageOutcome (fun _ _ => .ok ("", [])) params stage :=
        (stageOutcome_of_yields h).symm
      _ = .ok [(stage.operator, value')] := stageOutcome_of_yields h'
  simpa using hsame

/-- What yields a value without reading a binding yields the same for all
bindings. -/
theorem Yields.eq_of_not_requiresParam {operator : StageOperator}
    (h : stage.Yields params value) (h' : stage.Yields params' value')
    (htoken : stage.operator = operator.token)
    (hrequires : operator.requiresParam = false) : value = value' :=
  (h.of_readsAlike (.of_not_requiresParam htoken hrequires)).unique h'

theorem Yields.sameForm (h : stage.Yields params value)
    (h' : stage.Yields params' value') :
    SameForm [(stage.operator, value)] [(stage.operator, value')] := by
  cases h with
  | passThrough hoperator htoken =>
      rw [htoken]
      exact .bound (hoperator.imp_right .inl)
  | matching htoken =>
      rw [htoken]
      exact .bound (.inr (.inr rfl))
  | @staticEcho operator hoperator htoken =>
      have hechoed : stage.Yields params (.document stage.args) :=
        .staticEcho hoperator htoken
      have hrequires : operator.requiresParam = false := by
        rcases hoperator with rfl | rfl <;> rfl
      rw [← hechoed.eq_of_not_requiresParam h' htoken hrequires, htoken]
      exact .static (hoperator.imp_right .inl)
  | @orderedSort sorted htoken hsorted =>
      have hordered : stage.Yields params (.document sorted) :=
        .orderedSort htoken hsorted
      rw [← hordered.eq_of_not_requiresParam h' htoken rfl, htoken]
      exact .static (.inr (.inr rfl))

end Stage

/-- Two derivations for one name go through the same definitions. -/
theorem Derives.sameSkeleton {catalog : Catalog} {name : String}
    {params : Params} {pipeline : Pipeline}
    (h : Derives catalog name params pipeline) :
    ∀ {params' pipeline'}, Derives catalog name params' pipeline' →
      SameSkeleton pipeline pipeline' := by
  induction h using Derives.induct with
  | @hstep name params definition pipeline _ hfound hlength hstages =>
      intro params' pipeline' h'
      cases h' with
      | aggregation hfound' hlength' hstages' =>
          obtain rfl := Option.some.inj (hfound.symm.trans hfound')
          rw [SameSkeleton, forall₂_iff_getElem?]
          refine ⟨hlength'.trans hlength.symm, ?_⟩
          intro i document document' hdocument hdocument'
          have hi : i < definition.stages.length := by
            rw [← hlength]
            exact (List.getElem?_eq_some_iff.mp hdocument).1
          have hstage := List.getElem?_eq_getElem hi
          have hright := hstages' i _ document' hstage hdocument'
          rcases hstages i _ document hstage hdocument with
            ⟨value, hyields, rfl⟩ |
            ⟨target, embedded, inner, htarget, -, hembedded, ⟨-, ih⟩, rfl⟩
          · cases hright with
            | alone hyields' => exact hyields.sameForm hyields'
            | union htarget => exact absurd htarget (hyields.not_union _)
          · cases hright with
            | alone hyields' => exact absurd htarget (hyields'.not_union _)
            | union htarget' _ hembedded' hinner' =>
                obtain rfl := Option.some.inj (htarget.symm.trans htarget')
                obtain rfl := Option.some.inj (hembedded.symm.trans hembedded')
                obtain ⟨htoken, -⟩ := Stage.unionTarget?_eq_some_iff.mp htarget
                rw [htoken]
                exact .union (ih hinner')

/-- All pipelines that an aggregation compiles to, whatever is bound for it,
have one skeleton. -/
theorem compile_sameSkeleton {catalog : Catalog} {name : String}
    {params params' : Params} {pipeline pipeline' : Pipeline}
    (h : catalog.compile name params = .ok pipeline)
    (h' : catalog.compile name params' = .ok pipeline') :
    SameSkeleton pipeline pipeline' :=
  (derives_of_compile h).sameSkeleton (derives_of_compile h')

/-- Bindings for the digest that put a stage in the place of a number. -/
def Params.forged : Params :=
  [("past",
    .params
      [("count",
        .value
          (.document
            [("$unionWith", .document [("coll", .string "secrets")])]))])]

/-- The forged stage remains an operand. -/
theorem compile_digests_sameSkeleton :
    ∃ pipeline pipeline',
      Catalog.digests.compile "digest" .bare = .ok pipeline ∧
      Catalog.digests.compile "digest" .forged = .ok pipeline' ∧
      SameSkeleton pipeline pipeline' := by
  have hcompile : ∀ operand, Catalog.digests.compile "digest"
      [("past", .params [("count", .value operand)])] =
        .ok [[("$project", .document [])],
          [("$unionWith", .document [("coll", .string "old"),
            ("pipeline", .array [.document [("$limit", operand)]])])]] := by
    intro operand
    rfl
  exact ⟨_, _, hcompile _, hcompile _,
    compile_sameSkeleton (hcompile _) (hcompile _)⟩

end Aggregation
