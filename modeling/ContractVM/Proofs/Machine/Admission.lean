/-
A request gets into a contract if and only if its arguments fit.

Once visibility and payability are passed, only the arguments are still in question, and what
they have to fit are the bodies that the request selects, each with its own parameters: that
of a function, or those of all constructors of the chain (`Contract.Expects`).

`Contract.bind_exact` says what comes of it.  If the arguments fit, the frame goes on to run
just these bodies, each with just its own arguments.  If not, the frame ends there, whatever
runs bodies: it is told of it only that it was opened and reverted, it gives back all its gas,
and no value has moved (`Contract.Refuses`).
-/
import ContractVM.Proofs.Contract.Arguments
import ContractVM.Proofs.Machine.Caught

namespace ContractVM

/-! ## The bodies of a request -/

namespace Contract

/-- A request passes visibility and payability, and selects these bodies with their
parameters. -/
inductive Expects (c : Contract) (r : Request) : List (List Param × List Instr) → Prop
  | function {fn f} (named : r.selector = .named fn) (found : c.function? fn = some f)
    (callable : f.item.visibility = .external ∨ f.item.visibility = .public)
    (payable : 0 < r.value → f.item.mutability = .payable) :
    Expects c r [(f.item.params, f.item.body)]
  | construct (selected : r.selector = .construct)
    (payable : 0 < r.value → ∃ i, c.inits.getLast? = some i ∧ i.item.payable = true) :
    Expects c r (c.inits.map fun i => (i.item.params, i.item.body))

end Contract

namespace Bound

/-- The bodies of an entry point in the order in which they run, each in its scope. -/
def bodies (env : Environment) (c : Contract) : Bound → List (Scope × List Instr)
  | .construct inits =>
    inits.map fun i => (⟨env, c, i.1.owner, .payable, i.2⟩, i.1.item.body)
  | .fallback fb =>
    [(⟨env, c, fb.owner, if fb.item.payable then .payable else .mutating, ∅⟩, fb.item.body)]
  | .function fn args => [(⟨env, c, fn.owner, fn.item.mutability, args⟩, fn.item.body)]

/-- Whether the entry point is that of a contract under construction. -/
def constructs : Bound → Bool
  | .construct _ => true
  | _ => false

/-- What is given back once the last body has ended. -/
def result : Bound → Flow → Except Cause (Option Value)
  | .function fn _, flow => fn.item.result flow
  | _, _ => .ok none

end Bound

/-- A body that runs in a scope with its own arguments. -/
def Args.Reach (args : Args) (own : List Param × List Instr) (ran : Scope × List Instr) : Prop :=
  ran.2 = own.2 ∧ args.Shows own.1 ran.1.args

namespace Exec

variable {run : Runner} {env : Environment} {r : Request} {c : Contract} {b : Bound} {s : Site}

/-- Run bodies one after the other, each with local names of its own. -/
def runEach (run : Runner) (flow : Flow) : List (Scope × List Instr) → ExecM Flow
  | [] => pure flow
  | (sc, body) :: rest => do runEach run (← freshLocals (run sc body)) rest

/-- What a frame does once its request is bound. -/
def proceed (run : Runner) (r : Request) (c : Contract) (b : Bound)
    (bodies : List (Scope × List Instr)) : ExecM (Option Value) := do
  onlyIf r.transfers (transfer r.caller r.storageAddress r.value)
  onlyIf (c.takesLock r) (holdLock r.storageAddress)
  move .executing
  onlyIf b.constructs (spend Fee.create)
  let flow ← runEach run .next bodies
  let v ← lift (b.result flow)
  move .committing
  return v

theorem runEach_singleton (run : Runner) (flow : Flow) (sc : Scope) (body : List Instr) :
    runEach run flow [(sc, body)] = freshLocals (run sc body) := bind_pure _

theorem constructAll_eq (inits : List (Owned ConstructorDef × Args)) (flow : Flow) :
    constructAll run env c inits =
      (runEach run flow ((Bound.construct inits).bodies env c) >>= fun _ => pure ()) := by
  induction inits generalizing flow with
  | nil => rfl
  | cons i rest ih =>
    show (freshLocals (run _ _) >>= fun _ => constructAll run env c rest) =
      ((freshLocals (run _ _) >>= fun flow => runEach run flow _) >>= fun _ => pure ())
    rw [bind_assoc]
    exact bind_congr fun flow => ih flow

theorem runEntry_eq (run : Runner) (env : Environment) (c : Contract) (b : Bound) :
    runEntry run env c b = (do
      onlyIf b.constructs (spend Fee.create)
      let flow ← runEach run .next (b.bodies env c)
      lift (b.result flow)) := by
  cases b with
  | construct inits =>
    show (spend Fee.create >>= fun _ => constructAll run env c inits >>= fun _ => pure none) =
      (spend Fee.create >>= fun _ => _)
    rw [constructAll_eq inits .next]
    simp only [bind_assoc, pure_bind]
    rfl
  | fallback fb =>
    show (freshLocals _ >>= fun _ => pure none) =
      (pure () >>= fun _ => runEach run .next [(_, _)] >>= fun _ => lift (.ok none))
    rw [pure_bind, runEach_singleton]
    rfl
  | function fn args =>
    show (freshLocals _ >>= fun flow => lift (fn.item.result flow)) =
      (pure () >>= fun _ => runEach run .next [(_, _)] >>= fun flow => lift (fn.item.result flow))
    rw [pure_bind, runEach_singleton]

theorem attempt_eq (run : Runner) (found : env.registry.find? r.codeAddress = some c)
    (bound : c.bind r = .ok b) :
    attempt run env r = (do move .binding; proceed run r c b (b.bodies env c)) := by
  unfold attempt proceed
  rw [Registry.lookup_eq_ok.2 found]
  simp only [runEntry_eq, bind_assoc]
  refine bind_congr fun _ => ?_
  show (lift (c.bind r) >>= _) = _
  rw [bound]
  rfl

/-- A frame that cannot bind its request has come no further than that. -/
theorem attempt_refused (run : Runner) (found : env.registry.find? r.codeAddress = some c)
    {cause : Cause} (refused : c.bind r = .error cause) (pending : s.frame.phase = .pending) :
    attempt run env r s =
      .error (.raised cause false) { s with frame := { s.frame with phase := .binding } } := by
  have hmove : move .binding s = .ok () { s with frame := { s.frame with phase := .binding } } := by
    unfold move Frame.transition
    rw [pending]
    rfl
  unfold attempt
  rw [bind_ok hmove, Registry.lookup_eq_ok.2 found]
  show (lift (c.bind r) >>= _) _ = _
  rw [refused]
  rfl

end Exec

/-! ## A frame that is refused -/

/-- What is told of a frame that cannot bind its request. -/
def Trail.refusal (frame : Nat) (parent : Option Nat) (depth : Nat) (r : Request) (c : Cause) :
    Trail :=
  [.reverted frame depth r.codeAddress c false r.gas,
    .opened frame parent depth r.storageAddress r.codeAddress r.gas]

/-- Every frame for the request ends with the failure before a body runs, whether it is called
by another one or the first of a transaction. It has all its gas left, nothing is told of it
but its opening and its end, and all else is as it was. -/
structure Contract.Refuses (c : Contract) (r : Request) (cause : Cause) : Prop where
  called : ∀ (run : Runner) (env : Environment) (s : Site),
    env.registry.find? r.codeAddress = some c → 0 ≤ r.gas → s.frame.active = none →
      Exec.openFrame run env r s = .ok (.reverted cause r.gas) { s with world := { s.world with
        trail := Trail.refusal s.world.opened (some s.frame.id) (s.frame.depth + 1) r cause ++
          s.world.trail
        opened := s.world.opened + 1 } }
  first : ∀ m : Machine, m.registry.find? r.codeAddress = some c → 0 ≤ r.gas →
    Machine.runTop r m =
      .ok (.reverted cause r.gas, []) { m with trail := Trail.refusal 0 none 0 r cause ++ m.trail }

section Refusal

variable {c : Contract} {r : Request} {cause : Cause}

/-- Undoing a frame that has only been opened. -/
theorem Site.settle_refused (kept : cause.kind = .invalidArguments) (r : Request) (w : World)
    (b : BlockContext) (id : Nat) (parent : Option Frame) :
    let f := Frame.start id parent (r.context b) r.flags ⟨r.gas, r.gas⟩
    Site.settle ⟨w.enter f, { f with phase := .binding }, ∅⟩ (.raised cause false) =
      .ok (.reverted cause r.gas)
        ⟨{ w with trail := Trail.refusal id f.parent f.depth r cause ++ w.trail
                  opened := w.opened + 1 },
          { f with phase := .done, ending := some .reverted }, ∅⟩ := by
  intro f
  have hkeeps : GasMeter.fail ⟨r.gas, r.gas⟩ (cause.kind.policy false) = ⟨r.gas, r.gas⟩ := by
    rw [kept]
    rfl
  have hdone : Frame.transition { f with
      phase := .reverting
      meter := GasMeter.fail ⟨r.gas, r.gas⟩ (cause.kind.policy false) } .done =
        .ok { f with phase := .done, ending := some .reverted } := by
    rw [hkeeps]
    rfl
  exact Exec.settle_raised (Site.revert_of (f := { f with phase := .reverting }) rfl
    (Storage.rollback_snapshot w.storage) hdone)

theorem Contract.refuses_of_bind (refused : c.bind r = .error cause)
    (kept : cause.kind = .invalidArguments) : c.Refuses r cause where
  called := by
    intro run env s found budget idle
    have hmeter : GasMeter.ofBudget? r.gas = some ⟨r.gas, r.gas⟩ := if_neg (Int.not_lt.2 budget)
    let child := Frame.start s.world.opened (some s.frame) (r.context env.block) r.flags
      ⟨r.gas, r.gas⟩
    have hadopt : s.frame.adopt child = .ok { s.frame with active := some child.id } := by
      unfold Frame.adopt
      rw [if_neg (fun h => h rfl), idle]
      rfl
    have hattempt := Exec.attempt_refused run found refused
      (s := ⟨s.world.enter child, child, ∅⟩) rfl
    unfold Exec.openFrame
    rw [hmeter]
    simp only
    rw [hadopt]
    simp only
    rw [hattempt]
    simp only
    rw [Site.settle_refused kept r s.world env.block s.world.opened (some s.frame)]
    show EStateM.Result.ok _ (Site.mk _ (Frame.release _ child) s.locals) = _
    rw [Frame.release_adopt hadopt]
    rfl
  first := by
    intro m found budget
    let top := Frame.start 0 none (r.context m.block) r.flags ⟨r.gas, r.gas⟩
    let w : World := ⟨m.storage, m.locks, m.trail, 0⟩
    have hframe : m.firstFrame r =
        .error (.raised cause false) ⟨w.enter top, { top with phase := .binding }, ∅⟩ :=
      Exec.attempt_refused (runBody (nesting r.gas)) found refused
        (s := ⟨w.enter top, top, ∅⟩) rfl
    rw [Machine.runTop_eq budget, hframe]
    simp only
    unfold Machine.settleTop
    rw [Site.settle_refused kept r w m.block 0 none]
    rfl

end Refusal

/-! ## Admission -/

namespace Contract

variable {c : Contract} {r : Request} {bodies : List (List Param × List Instr)}

/-- Each constructor gets what was bound for its own parameters. -/
theorem reach_construct {args : Args} {env : Environment} :
    ∀ {inits : List (Owned ConstructorDef)} {seen : List Args},
      List.Forall₂ args.Shows (inits.map (·.item.params)) seen →
        List.Forall₂ args.Reach (inits.map fun i => (i.item.params, i.item.body))
          ((Bound.construct (inits.zip seen)).bodies env c)
  | [], _, .nil => .nil
  | _ :: _, _ :: _, .cons hfirst hrest => .cons ⟨rfl, hfirst⟩ (reach_construct hrest)

theorem bindNamed_spec {fn : String} {f : Owned FunctionDef} (found : c.function? fn = some f)
    (callable : f.item.visibility = .external ∨ f.item.visibility = .public)
    (payable : 0 < r.value → f.item.mutability = .payable) : match c.bindNamed fn r with
    | .ok b => r.args.Fit [f.item.params] ∧ ∀ env : Environment,
      List.Forall₂ r.args.Reach [(f.item.params, f.item.body)] (b.bodies env c)
    | .error cause => ¬ r.args.Fit [f.item.params] ∧ cause.kind = .invalidArguments := by
  have hbind := Args.bindTo_spec r.args f.item.params
  have hvisible : ¬ (f.item.visibility ≠ .external ∧ f.item.visibility ≠ .public) :=
    fun h => callable.elim h.1 h.2
  have hpays : ¬ (0 < r.value ∧ f.item.mutability ≠ .payable) := fun h => h.2 (payable h.1)
  unfold bindNamed
  rw [found]
  simp only
  rw [if_neg hvisible, if_neg hpays]
  cases h : r.args.bindTo f.item.params with
  | error cause =>
    rw [h] at hbind
    exact hbind
  | ok seen =>
    rw [h] at hbind
    exact ⟨hbind.1, fun _ => .cons ⟨rfl, hbind.2⟩ .nil⟩

theorem bindConstructors_spec
    (payable : 0 < r.value → ∃ i, c.inits.getLast? = some i ∧ i.item.payable = true) :
    match c.bindConstructors r with
    | .ok b => r.args.Fit (c.inits.map (·.item.params)) ∧ ∀ env : Environment,
      List.Forall₂ r.args.Reach (c.inits.map fun i => (i.item.params, i.item.body)) (b.bodies env c)
    | .error cause =>
      ¬ r.args.Fit (c.inits.map (·.item.params)) ∧ cause.kind = .invalidArguments := by
  have hbind := Args.bindEach_spec r.args (c.inits.map (·.item.params))
  have hpays : ¬ (0 < r.value ∧ c.inits.getLast?.all (fun i => !i.item.payable) = true) := by
    rintro ⟨hpos, hnone⟩
    obtain ⟨i, hlast, hi⟩ := payable hpos
    rw [hlast] at hnone
    simp [hi] at hnone
  unfold bindConstructors
  rw [if_neg hpays]
  cases h : r.args.bindEach (c.inits.map (·.item.params)) with
  | error cause =>
    rw [h] at hbind
    exact hbind
  | ok seen =>
    rw [h] at hbind
    exact ⟨hbind.1, fun _ => reach_construct hbind.2⟩

/-- Binding goes by the arguments alone once the bodies are selected. -/
theorem bind_spec (expects : c.Expects r bodies) : match c.bind r with
    | .ok b => r.args.Fit (bodies.map Prod.fst) ∧
      ∀ env : Environment, List.Forall₂ r.args.Reach bodies (b.bodies env c)
    | .error cause => ¬ r.args.Fit (bodies.map Prod.fst) ∧ cause.kind = .invalidArguments := by
  unfold bind
  cases expects with
  | function named found callable payable =>
    rw [named]
    exact bindNamed_spec found callable payable
  | construct selected payable =>
    have hparams : (c.inits.map fun i => (i.item.params, i.item.body)).map Prod.fst =
        c.inits.map (·.item.params) := List.map_map
    rw [selected, hparams]
    exact bindConstructors_spec payable

/-- A request is bound if and only if its arguments fit the bodies that it selects.  Then the
frame goes on to run these bodies, each with its own arguments.  If not, the frame is refused
for its arguments. -/
theorem bind_exact (expects : c.Expects r bodies) :
    ((∃ b, c.bind r = .ok b) ↔ r.args.Fit (bodies.map Prod.fst)) ∧
    (∀ b, c.bind r = .ok b → ∀ env : Environment,
      List.Forall₂ r.args.Reach bodies (b.bodies env c) ∧
      ∀ run : Runner, env.registry.find? r.codeAddress = some c →
        Exec.attempt run env r =
          (do Exec.move .binding; Exec.proceed run r c b (b.bodies env c))) ∧
    ∀ cause, c.bind r = .error cause → cause.kind = .invalidArguments ∧ c.Refuses r cause := by
  have hspec := bind_spec expects
  cases h : c.bind r with
  | ok b =>
    rw [h] at hspec
    refine ⟨⟨fun _ => hspec.1, fun _ => ⟨b, rfl⟩⟩, ?_, fun _ h' => (nomatch h')⟩
    rintro _ ⟨⟩ env
    exact ⟨hspec.2 env, fun run found => Exec.attempt_eq run found h⟩
  | error cause =>
    rw [h] at hspec
    refine ⟨⟨fun ⟨_, h'⟩ => (nomatch h'), fun fits => absurd fits hspec.1⟩,
      fun _ h' => (nomatch h'), ?_⟩
    rintro _ ⟨⟩
    exact ⟨hspec.2, refuses_of_bind h hspec.2⟩

/-! ## A chain that shares a parameter -/

namespace Treasury

/-- Both constructors take the limit, and each takes one argument that the other does not. -/
def base : ConstructorDef where
  params := [⟨"owner", .address⟩, ⟨"limit", .uint256⟩]
  body := [.sstore (.const (.text "owner")) (.arg "owner")]

def top : ConstructorDef where
  params := [⟨"limit", .uint256⟩, ⟨"frozen", .bool⟩]
  payable := true
  body := [.sstore (.const (.text "limit")) (.arg "limit")]

def contract : Contract :=
  ⟨"0x000000000000000000000000000000000000000c", "Treasury", ∅, ∅,
    [⟨"Owned", base⟩, ⟨"Treasury", top⟩], none⟩

/-- Construction with five units of value and the given limit. -/
def build (limit : Value) : Request where
  caller := Address.zero
  origin := Address.zero
  codeAddress := contract.address
  storageAddress := contract.address
  selector := .construct
  args := .ofList [("owner", .text Address.zero), ("limit", limit), ("frozen", .bool false)]
  value := 5
  transfers := true
  gas := 100000
  flags := ⟨false, true, false⟩

theorem expects (limit : Value) :
    contract.Expects (build limit) [(base.params, base.body), (top.params, top.body)] :=
  .construct rfl fun _ => ⟨⟨"Treasury", top⟩, rfl, rfl⟩

end Treasury

open Treasury in
theorem bind_exact_treasury :
    (build (.int 9)).args.Fit [base.params, top.params] ∧
      ¬ (build (.text "nine")).args.Fit [base.params, top.params] ∧
      contract.Refuses (build (.text "nine")) (.argumentMistyped "limit" .uint256) := by
  have refused : contract.bind (build (.text "nine")) =
      .error (.argumentMistyped "limit" .uint256) := by rfl
  obtain ⟨hfit, -, hrefuses⟩ := bind_exact (expects (.text "nine"))
  refine ⟨(bind_exact (expects (.int 9))).1.1 ⟨_, rfl⟩, fun h => ?_, (hrefuses _ refused).2⟩
  obtain ⟨b, hb⟩ := hfit.2 h
  rw [refused] at hb
  cases hb

end Contract
end ContractVM
