import Tarn.Proofs.Semantics.Origin
import Tarn.Proofs.Semantics.TopLevel

/-! The limit on nested calls. It bounds the number of function bodies that are running, and a
program that does not run into it does the same under every higher limit. -/
namespace Tarn

open Semantics

/-- How many function bodies a task enters for its parts. All that a call runs is the body. -/
def Job.bodies : Job → Nat
  | .call .. => 1
  | _ => 0

namespace Semantics

variable (S : Context)

/-- `Nests S t n t'`: in the course of the task `t` comes `t'`, inside `n` function bodies that were
entered on the way. -/
inductive Nests (t : Task) : Nat → Task → Prop where
  | start : Nests t 0 t
  | step {n t' t''} (h : Nests t n t') (hspawns : Spawns S t' t'') :
      Nests t (n + t'.job.bodies) t''

variable {S}

theorem Spawns.depth_eq {t t' : Task} (h : Spawns S t t') : t'.depth = t.depth + t.job.bodies := by
  cases h <;> rfl

/-- A task that enters a body is not yet as deep as calls may be. -/
theorem Spawns.depth_le {t t' : Task} (h : Spawns S t t') (ht : t.depth ≤ S.maxCallDepth) :
    t'.depth ≤ S.maxCallDepth := by
  cases h with
  | body _ hd => exact hd
  | _ => exact ht

theorem Nests.depth_eq {t t' : Task} {n : Nat} (h : Nests S t n t') : t'.depth = t.depth + n := by
  induction h with
  | start => rfl
  | step _ hspawns ih => rw [hspawns.depth_eq, ih, Nat.add_assoc]

theorem Nests.depth_le {t t' : Task} {n : Nat} (h : Nests S t n t')
    (ht : t.depth ≤ S.maxCallDepth) : t'.depth ≤ S.maxCallDepth := by
  induction h with
  | start => exact ht
  | step _ hspawns ih => exact hspawns.depth_le ih

/-- Whatever comes in the course of a task comes inside some number of bodies. -/
theorem Comprises.nests {t t' : Task} (h : Comprises S t t') : ∃ n, Nests S t n t' := by
  induction h with
  | refl => exact ⟨0, .start⟩
  | tail _ hspawns ih =>
    obtain ⟨n, hn⟩ := ih
    exact ⟨_, hn.step hspawns⟩

/-- The call of a function starts its body, unless as many bodies are running as may be. -/
theorem spawns_call_iff {t : Task} {f : Closure} {args : List Value} {paren : Span}
    (ht : t.job = .call (.function f) args paren) (hargs : args.length = f.decl.arity) :
    (∃ t', Spawns S t t') ↔ t.depth < S.maxCallDepth := by
  obtain ⟨scope, depth, w, job⟩ := t
  obtain rfl : job = _ := ht
  constructor
  · rintro ⟨t', ⟨-, hd⟩⟩
    assumption
  · exact fun hd => ⟨_, .body hargs hd⟩

/-- Where no body may start, the call ends at once and blames the parenthesis. -/
theorem fails_call_iff {t : Task} {f : Closure} {args : List Value} {paren : Span}
    (ht : t.job = .call (.function f) args paren) (hargs : args.length = f.decl.arity)
    (hd : S.maxCallDepth ≤ t.depth) {e : EvalError} {w : World} :
    Fails S t e w ↔ e = ⟨.callDepthExceeded S.maxCallDepth, some paren⟩ ∧ w = t.world := by
  obtain ⟨scope, depth, w, job⟩ := t
  obtain rfl : job = _ := ht
  constructor
  · intro h
    have h : Applies S depth w (.function f) args paren (.error e) _ := h
    generalize hr : (Except.error e : Result Value) = r at h
    cases h with
    | notCallable hf => exact absurd rfl (hf f)
    | arity hne => exact absurd hargs hne
    | tooDeep => exact ⟨Except.error.inj hr, rfl⟩
    | body _ hd' => exact absurd hd' hd.not_gt
  · rintro ⟨rfl, rfl⟩
    exact .tooDeep hargs hd

end Semantics

/-- No call was refused because calls were nested too deep. -/
def Result.Shallow {α : Type} (r : Result α) : Prop :=
  ∀ e, r = .error e → e.code ≠ .callDepthExceeded

namespace Result

variable {α β : Type}

theorem shallow_ok (a : α) : Result.Shallow (.ok a) := nofun

/-- An error stays what it is where the value would have another type. -/
theorem Shallow.error {e : EvalError} (h : Result.Shallow (.error e : Result α)) :
    Result.Shallow (.error e : Result β) := by
  rintro _ ⟨⟩
  exact h e rfl

theorem Shallow.of_bind {r : Result α} {f : α → Result β} (h : Result.Shallow (r.bind f)) :
    r.Shallow := by
  cases r with
  | ok a => exact shallow_ok a
  | error e => exact Shallow.error (α := β) h

theorem Shallow.of_map {r : Result α} {f : α → β} (h : Result.Shallow (r.map f)) : r.Shallow := by
  cases r with
  | ok a => exact shallow_ok a
  | error e => exact Shallow.error (α := β) h

end Result

def Context.limited (S : Context) (limit : Nat) : Context := { S with maxCallDepth := limit }

namespace Semantics

variable {S : Context} {limit : Nat}

mutual

theorem Evaluates.limited (hlimit : S.maxCallDepth ≤ limit) {scope : Scope} {depth : Nat}
    {w w' : World} {e : Expr} {r : Result Value} : Evaluates S scope depth w e r w' → r.Shallow →
    Evaluates (S.limited limit) scope depth w e r w'
  | .literal, _ => .literal
  | .var h, _ => .var h
  | .undefined h, _ => .undefined h
  | .grouping h, hr => .grouping (h.limited hlimit hr)
  | .unary h, hr => .unary (h.limited hlimit hr.of_bind)
  | .binary h h', hr =>
    .binary (h.limited hlimit (Result.shallow_ok _)) (h'.limited hlimit hr.of_bind)
  | .binaryFails h, hr => .binaryFails (h.limited hlimit hr)
  | .decided h ha, hr => .decided (h.limited hlimit hr) ha
  | .undecided h ha h', hr =>
    .undecided (h.limited hlimit (Result.shallow_ok _)) ha (h'.limited hlimit hr)
  | .logicalFails h, hr => .logicalFails (h.limited hlimit hr)
  | .assign h hi, hr => .assign (h.limited hlimit hr) hi
  | .assignUndefined h hi, _ => .assignUndefined (h.limited hlimit (Result.shallow_ok _)) hi
  | .assignFails h, hr => .assignFails (h.limited hlimit hr)
  | .call hf ha h, hr =>
    .call (hf.limited hlimit (Result.shallow_ok _)) (ha.limited hlimit (Result.shallow_ok _))
      (h.limited hlimit hr)
  | .calleeFails hf, hr => .calleeFails (hf.limited hlimit hr)
  | .argumentsFail hf ha, hr =>
    .argumentsFail (hf.limited hlimit (Result.shallow_ok _)) (ha.limited hlimit hr.error)

theorem EvaluatesAll.limited (hlimit : S.maxCallDepth ≤ limit) {scope : Scope} {depth : Nat}
    {w w' : World} {es : List Expr} {r : Result (List Value)} :
    EvaluatesAll S scope depth w es r w' → r.Shallow →
    EvaluatesAll (S.limited limit) scope depth w es r w'
  | .nil, _ => .nil
  | .cons h hs, hr => .cons (h.limited hlimit (Result.shallow_ok _)) (hs.limited hlimit hr.of_map)
  | .fails h, hr => .fails (h.limited hlimit hr.error)

/-- A call that is refused under the lower limit is the one thing that may go on under the higher
limit. -/
theorem Applies.limited (hlimit : S.maxCallDepth ≤ limit) {depth : Nat} {w w' : World} {f : Value}
    {args : List Value} {paren : Span} {r : Result Value} :
    Applies S depth w f args paren r w' → r.Shallow →
    Applies (S.limited limit) depth w f args paren r w'
  | .notCallable hf hn, _ => .notCallable hf hn
  | .arity h, _ => .arity h
  | .nativeArity h, _ => .nativeArity h
  | .native h, _ => .native (S := S.limited limit) h
  | .tooDeep _ _, hr => absurd rfl (hr _ rfl)
  | .body h hd hb, hr => .body h (hd.trans_le hlimit) (hb.limited hlimit hr.of_map)

theorem EvaluatesOption.limited (hlimit : S.maxCallDepth ≤ limit) {scope : Scope} {depth : Nat}
    {w w' : World} {e : Option Expr} {r : Result Value} :
    EvaluatesOption S scope depth w e r w' → r.Shallow →
    EvaluatesOption (S.limited limit) scope depth w e r w'
  | .none, _ => .none
  | .some h, hr => .some (h.limited hlimit hr)

theorem Executes.limited (hlimit : S.maxCallDepth ≤ limit) {scope : Scope} {depth : Nat}
    {w w' : World} {s : Stmt} {r : Result Flow} : Executes S scope depth w s r w' → r.Shallow →
    Executes (S.limited limit) scope depth w s r w'
  | .block h, hr => .block (h.limited hlimit hr)
  | .expression h, hr => .expression (h.limited hlimit hr.of_map)
  | .function, _ => .function (S := S.limited limit)
  | .thenBranch h hv hb, hr =>
    .thenBranch (h.limited hlimit (Result.shallow_ok _)) hv (hb.limited hlimit hr)
  | .elseBranch h hv hb, hr =>
    .elseBranch (h.limited hlimit (Result.shallow_ok _)) hv (hb.limited hlimit hr)
  | .noBranch h hv, _ => .noBranch (h.limited hlimit (Result.shallow_ok _)) hv
  | .conditionFails h, hr => .conditionFails (h.limited hlimit hr.error)
  | .print h, _ => .print (h.limited hlimit (Result.shallow_ok _))
  | .printFails h, hr => .printFails (h.limited hlimit hr.error)
  | .result h, hr => .result (h.limited hlimit hr.of_map)
  | .loop h, hr => .loop (h.limited hlimit hr)
  | .var h, _ => .var (h.limited hlimit (Result.shallow_ok _))
  | .varFails h, hr => .varFails (h.limited hlimit hr.error)

theorem ExecutesAll.limited (hlimit : S.maxCallDepth ≤ limit) {scope : Scope} {depth : Nat}
    {w w' : World} {ss : List Stmt} {r : Result Flow} : ExecutesAll S scope depth w ss r w' →
    r.Shallow → ExecutesAll (S.limited limit) scope depth w ss r w'
  | .nil, _ => .nil
  | .cons h hs, hr => .cons (h.limited hlimit (Result.shallow_ok _)) (hs.limited hlimit hr)
  | .stops h hne, hr => .stops (h.limited hlimit hr) hne

theorem Loops.limited (hlimit : S.maxCallDepth ≤ limit) {scope : Scope} {depth : Nat}
    {w w' : World} {condition : Expr} {stmts : List Stmt} {r : Result Flow} :
    Loops S scope depth w condition stmts r w' → r.Shallow →
    Loops (S.limited limit) scope depth w condition stmts r w'
  | .done h hv, _ => .done (h.limited hlimit (Result.shallow_ok _)) hv
  | .round h hv hb hl, hr =>
    .round (h.limited hlimit (Result.shallow_ok _)) hv (hb.limited hlimit (Result.shallow_ok _))
      (hl.limited hlimit hr)
  | .stops h hv hb hne, hr =>
    .stops (h.limited hlimit (Result.shallow_ok _)) hv (hb.limited hlimit hr) hne
  | .fails h, hr => .fails (h.limited hlimit hr.error)

end

/-- A program that ends without running into the limit ends in the same way under a higher one. -/
theorem Runs.limited (hlimit : S.maxCallDepth ≤ limit) {scope : Scope} {depth : Nat}
    {w w' : World} {stmts : List Stmt} {r : Result Unit} (h : Runs S scope depth w stmts r w')
    (hr : r.Shallow) : Runs (S.limited limit) scope depth w stmts r w' := by
  induction h with
  | nil => exact .nil
  | cons h _ ih => exact .cons (h.limited hlimit (Result.shallow_ok _)) (ih hr)
  | fails h => exact .fails (h.limited hlimit hr.error)
  | returns h => exact .returns (h.limited hlimit (Result.shallow_ok _))

end Semantics

namespace Machine

variable {m : Machine} {stmts : List Stmt}

def limited (m : Machine) (limit : Nat) : Machine := { m with maxCallDepth := limit }

/-- A function body is running in the course of a program only as deep as the limit allows. -/
theorem nests_le {n : Nat} {t : Task} (h : m.Interpreter)
    (ht : Nests m.context (m.task stmts) n t) : t.depth = n ∧ n ≤ m.maxCallDepth := by
  have hdepth : t.depth = n := by
    rw [ht.depth_eq, show (m.task stmts).depth = 0 from h.position.2, Nat.zero_add]
  refine ⟨hdepth, ?_⟩
  rw [← hdepth]
  refine ht.depth_le ?_
  rw [show (m.task stmts).depth = 0 from h.position.2]
  exact Nat.zero_le _

/-- What a program does under a limit that it does not run into, it does under every higher limit:
it ends with the same result, the same output and the same bindings in every frame. -/
theorem interpret_limited {loops limit : Nat} {r : Result Unit} {m' : Machine}
    (hlimit : m.maxCallDepth ≤ limit) (hrun : interpret loops stmts m = (r.halt, m'))
    (hr : r.Shallow) : ∃ enough, ∀ loops' ≥ enough, ∃ k,
      interpret loops' stmts (m.limited limit) = (r.halt, k) ∧ k.world = m'.world := by
  obtain ⟨w', hm', hruns⟩ := follows_interpret loops stmts m.views_world hrun
  have hrefines : (m.limited limit).Refines (fun loops => interpret loops stmts) fun w r w' =>
      Runs (m.limited limit).context m.env.current m.callDepth w stmts r w' :=
    refines_of (fun loops => follows_interpret loops stmts) fun _ _ h => h.settles
  obtain ⟨enough, h⟩ := hrefines.complete r w' (hruns.limited hlimit hr)
  refine ⟨enough, fun loops' hloops => ?_⟩
  obtain ⟨k, hk, hviews⟩ := h loops' hloops
  exact ⟨k, hk, hviews.world_eq.trans hm'.world_eq.symm⟩

/-- The limit bounds how many function bodies run inside each other, and nothing else comes of it.
In the course of a program no more bodies are running than the limit says. The call of a function
starts its body exactly when fewer are running, and otherwise ends with the error of the limit and
changes nothing. A program that ends without this error ends in the same way under every higher
limit. -/
theorem call_depth_bounds_nesting (h : m.Interpreter) (stmts : List Stmt) :
    (∀ t, Comprises m.context (m.task stmts) t → ∃ n, Nests m.context (m.task stmts) n t) ∧
    (∀ n t, Nests m.context (m.task stmts) n t → n ≤ m.maxCallDepth ∧
      ∀ f args paren, t.job = .call (.function f) args paren → args.length = f.decl.arity →
        ((∃ t', Spawns m.context t t') ↔ n < m.maxCallDepth) ∧
        (n = m.maxCallDepth → ∀ e w', Fails m.context t e w' ↔
          e = ⟨.callDepthExceeded m.maxCallDepth, some paren⟩ ∧ w' = t.world)) ∧
    (∀ (loops limit : Nat) (r : Result Unit) (m' : Machine), m.maxCallDepth ≤ limit →
      interpret loops stmts m = (r.halt, m') → (∀ e, r = .error e → e.code ≠ .callDepthExceeded) →
      ∃ enough, ∀ loops' ≥ enough, ∃ k,
        interpret loops' stmts (m.limited limit) = (r.halt, k) ∧ k.world = m'.world) := by
  refine ⟨fun _ ht => Comprises.nests ht, ?_, fun _ _ _ _ => interpret_limited⟩
  intro n t ht
  obtain ⟨hdepth, hle⟩ := nests_le h ht
  refine ⟨hle, fun f args paren hjob hargs => ⟨?_, ?_⟩⟩
  · rw [← hdepth]
    exact spawns_call_iff hjob hargs
  · intro hn e w'
    exact fails_call_iff hjob hargs (hn.symm.trans hdepth.symm).le

/-- Two calls inside each other, as many as there may be. -/
def twoDeep : CompileOutput × Machine :=
  ({ maxCallDepth := 2 } : Machine).compile "fun f(x) \x7b if (x) \x7b f(nil); \x7d \x7d f(true);"

theorem call_depth_bounds_nesting_twoDeep :
    (interpret 1 twoDeep.1.statements twoDeep.2).1 = .ok () ∧
      (interpret 1 twoDeep.1.statements (twoDeep.2.limited 1)).1 =
        .error (.failed ⟨.callDepthExceeded 1, some ⟨25, 26⟩⟩) ∧
      (∀ n t, Nests twoDeep.2.context (twoDeep.2.task twoDeep.1.statements) n t → n ≤ 2) ∧
      ∃ enough, ∀ loops ≥ enough, ∃ k,
        interpret loops twoDeep.1.statements (twoDeep.2.limited 7) = (.ok (), k) ∧
          k.world = (interpret 1 twoDeep.1.statements twoDeep.2).2.world := by
  have hok : (interpret 1 twoDeep.1.statements twoDeep.2).1 = .ok () := by decide +kernel
  have hdeep : (interpret 1 twoDeep.1.statements (twoDeep.2.limited 1)).1 =
      .error (.failed ⟨.callDepthExceeded 1, some ⟨25, 26⟩⟩) := by decide +kernel
  have hlimit : twoDeep.2.maxCallDepth = 2 := by decide +kernel
  have hfresh : twoDeep.2.Interpreter := .fresh rfl rfl
  obtain ⟨-, hbound, hlimited⟩ := call_depth_bounds_nesting hfresh twoDeep.1.statements
  rw [hlimit] at hbound hlimited
  rcases hrun : interpret 1 twoDeep.1.statements twoDeep.2 with ⟨r, m⟩
  rw [hrun] at hok
  obtain rfl : r = Result.halt (.ok ()) := hok
  exact ⟨rfl, hdeep, fun n t ht => (hbound n t ht).1, hlimited 1 7 _ m (by decide) hrun nofun⟩

end Machine

end Tarn
