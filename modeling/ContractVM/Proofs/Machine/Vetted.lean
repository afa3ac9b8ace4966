/-
What checking code before it is deployed spares its runs.

Contracts get to run only after their emits and invokes were checked, so no frame fails for an
event that is not declared, and for want of a function only when it is refused at the door
(`failures_vetted`).  The check compares the names of fields in a form that does not always
tell them apart, and then an emit may still find a field unset.
-/
import ContractVM.Proofs.Contract.Signature
import ContractVM.Proofs.Machine.Charter
import ContractVM.Proofs.Machine.Tenancy

namespace ContractVM

/-- Anything may be logged, and a field may be unset if one of the operations deploys code
that overlooks it. -/
def Charter.ofDeployed (ops : List Operation) : Charter where
  logs := fun _ => True
  unset := fun event field => ∃ op ∈ ops, ∃ code a c,
    op.code? = some code ∧ Contract.flatten a code = .ok c ∧ c.Overlooks event field

theorem Contract.meets_ofDeployed {ops : List Operation} {op : Operation} (hop : op ∈ ops)
    {code : ContractCode} {a : Address} {c : Contract} (hcode : op.code? = some code)
    (hflatten : flatten a code = .ok c) : c.Meets (.ofDeployed ops) where
  check := check_of_flatten hflatten
  logs := fun _ _ => trivial
  unset := fun _ _ leaves =>
    ⟨op, hop, code, a, c, hcode, hflatten, leaves.overlooks (check_of_flatten hflatten)⟩

/-- What is allowed of a trail holds of each step, with the steps before it. -/
theorem Trail.Allowed.step {T : Charter} {before after : Trail} {step : Step}
    (h : Trail.Allowed T (after ++ step :: before)) : step.Allowed T before := by
  induction after with
  | nil => exact h.1
  | cons _ rest ih => exact ih h.2

namespace Machine

variable {m : Machine}

/-- Code that is deployed has been vetted, and it shows in every run of it: no frame fails for
an event that is not declared; one that fails for a field that is not set has run code with an
emit that the check overlooked, for a name that is not plain; and one that fails for want of a
function was refused when it was opened, or passes such a failure on. -/
theorem failures_vetted (settings : Settings) (hash : Bytes → Bytes) (ops : List Operation)
    (hm : m = (start settings hash).perform ops) :
    (∀ a code c, Contract.flatten a code = .ok c → c.Vetted) ∧
    ∀ (after : Trail) f depth code cause propagated left (before : Trail),
      m.trail = after ++ .reverted f depth code cause propagated left :: before →
        (∀ event, cause ≠ .undeclaredEvent event) ∧
        (∀ event field, cause = .fieldNotSet event field →
          ∃ op ∈ ops, ∃ code a c, op.code? = some code ∧ Contract.flatten a code = .ok c ∧
            c.Overlooks event field) ∧
        ∀ contract fn, cause = .noFunction contract fn →
          (propagated = false → before.Unentered f cause) ∧
          (propagated = true → before.Blames cause) := by
  refine ⟨fun a code c h => Contract.vetted_of_check (Contract.check_of_flatten h), ?_⟩
  intro after f depth code cause propagated left before htrail
  have hallowed := (perform_allowed (T := .ofDeployed ops) settings hash ops fun _ hop _ _ _ =>
    Contract.meets_ofDeployed hop).1
  rw [← hm, htrail] at hallowed
  have hadmits : (Charter.ofDeployed ops).Admits f before propagated cause := hallowed.step
  refine ⟨fun event hcause => ?_, fun event field hcause => ?_, fun contract fn hcause => ?_⟩
  · subst hcause
    rcases hadmits with allowed | ⟨-, ⟨_, _, hcause⟩, -⟩
    · exact allowed
    · cases hcause
  · subst hcause
    rcases hadmits with allowed | ⟨-, ⟨_, _, hcause⟩, -⟩
    · exact allowed
    · cases hcause
  · subst hcause
    rcases hadmits with ⟨rfl, blames⟩ | ⟨rfl, unentered⟩
    · exact ⟨nofun, fun _ => blames⟩
    · exact ⟨fun _ => unentered, nofun⟩

/-! ## A field with a comma -/

namespace Horn

/-- One argument whose name looks like those of two fields. -/
def args : Table Expr := .ofList [("a,b", .const (.int 1))]

def blow : FunctionDef where
  name := "blow"
  visibility := .external
  mutability := .mutating
  body := [.emit "Blown" args]

def event : EventDecl := ⟨"Blown", [⟨"a", .uint256, none⟩, ⟨"b", .uint256, none⟩]⟩

def code : ContractCode where
  name := "Horn"
  functions := [blow]
  events := [event]

def contract : Contract where
  address := Bell.address
  name := "Horn"
  functions := .ofList [("blow", ⟨"Horn", blow⟩)]
  events := .ofList [("Blown", event)]
  inits := []
  fallback := none

theorem bodies_contract : contract.bodies = [blow.body] := rfl

theorem signature_args : Contract.signature args.keys = Contract.signature ["a", "b"] := by
  have hsorted : Text.sort ["a", "b"] = ["a", "b"] := List.mergeSort_of_pairwise (by decide +kernel)
  unfold Contract.signature
  rw [hsorted]
  decide +kernel

theorem flatten_code : Contract.flatten Bell.address code = .ok contract := by
  have hgathered : code.chain.foldlM Contract.addCode ⟨Bell.address, code.name, ∅, ∅, [], none⟩ =
    .ok contract := rfl
  have hcheck : contract.check = .ok () := by
    refine Contract.check_eq_ok.2 fun body hbody i hi => ?_
    rw [bodies_contract, List.mem_singleton] at hbody
    subst hbody
    cases hi with
    | here hi =>
      rw [List.mem_singleton.1 hi]
      exact ⟨event, rfl, signature_args⟩
    | yes hbranch => cases List.mem_singleton.1 hbranch
    | no hbranch => cases List.mem_singleton.1 hbranch
  exact Contract.flatten_eq_ok.2 ⟨hgathered, hcheck⟩

def fresh : Machine := start .standard fun _ => Bell.digest

def calls (fn : String) : Operation := .call Address.zero Bell.address fn ∅ 0 none

def history : List Operation := [.deploy code ∅ Address.zero 0 none, calls "blow", calls "mute"]

def blown : Machine := fresh.perform history

def registry : Registry :=
  { Registry.empty.numbered Address.zero with contracts := .ofList [(Bell.address, contract)] }

/-- The machine with the horn, as it is deployed once its code is flattened. -/
def raised : Machine :=
  Host.left (construct code contract Bell.address Address.zero ∅ 0
    ((none : Option Int).getD fresh.settings.deployGas) { fresh with registry := registry })

theorem after_deploy : (Operation.deploy code ∅ Address.zero 0 none).after fresh = raised := by
  have registered : (fresh.registry.numbered Address.zero).register Bell.address code =
      .ok (contract, registry) := by
    unfold Registry.register
    rw [flatten_code]
    rfl
  have derived : deriveAddress fresh.hash Address.zero (fresh.registry.nonce Address.zero) =
      .ok Bell.address := by decide +kernel
  have paid : spendable "deploy" 0 ((none : Option Int).getD fresh.settings.deployGas) = .ok () := by
    decide +kernel
  have hdeploy : deploy code ∅ Address.zero 0 none fresh = construct code contract Bell.address
      Address.zero ∅ 0 ((none : Option Int).getD fresh.settings.deployGas)
      { fresh with registry := registry } := deploy_eq_construct paid derived registered ∅
  unfold Operation.after raised
  exact congrArg Host.left hdeploy

theorem blown_eq : blown = raised.perform [calls "blow", calls "mute"] := by
  unfold blown history perform
  rw [List.foldl_cons, after_deploy]

/-- Whether a step is the failure of a frame for this cause, not passed on to it. -/
def isFailure (cause : Cause) : Step → Bool
  | .reverted _ _ _ c false _ => decide (c = cause)
  | _ => false

theorem blames_of_any {cause : Cause} {t : Trail} (h : t.any (isFailure cause) = true) :
    t.Blames cause := by
  obtain ⟨step, hmem, hstep⟩ := List.any_eq_true.1 h
  unfold isFailure at hstep
  split at hstep
  · cases of_decide_eq_true hstep
    exact ⟨_, _, _, _, hmem⟩
  · cases hstep

/-- The frame that blows fails at the emit, and the call of a function that the horn does not
have fails before it enters a frame. -/
theorem blames_blown : blown.trail.Blames (.fieldNotSet "Blown" "a") ∧
    blown.trail.Blames (.noFunction "Horn" "mute") := by
  have hfailed : blown.trail.any (isFailure (.fieldNotSet "Blown" "a")) = true ∧
      blown.trail.any (isFailure (.noFunction "Horn" "mute")) = true := by
    rw [blown_eq]
    decide +kernel
  exact ⟨blames_of_any hfailed.1, blames_of_any hfailed.2⟩

end Horn

open Horn in
/-- The code of the horn passes its check with an emit that sets neither of the two fields of
its event, and its frame fails for it. -/
theorem field_left_unset :
    Contract.flatten Bell.address code = .ok contract ∧
    contract.Contains (.emit "Blown" args) ∧ contract.events.get? "Blown" = some event ∧
    (∀ field ∈ event.fields.map (·.name), args.get? field = none) ∧
    blown.trail.Blames (.fieldNotSet "Blown" "a") := by
  refine ⟨flatten_code, ⟨blow.body, ?_, .here List.mem_cons_self⟩, rfl, by decide +kernel,
    blames_blown.1⟩
  rw [bodies_contract]
  exact List.mem_cons_self

open Horn in
theorem failures_vetted_horn :
    (∃ op ∈ history, ∃ code a c, op.code? = some code ∧ Contract.flatten a code = .ok c ∧
      c.Overlooks "Blown" "a") ∧
    ∃ (after : Trail) (f depth : Nat) (code : Address) (left : Int) (before : Trail), blown.trail =
        after ++ .reverted f depth code (.noFunction "Horn" "mute") false left :: before ∧
      before.Unentered f (.noFunction "Horn" "mute") := by
  have hblown : blown = (start .standard fun _ => Bell.digest).perform history := by
    rw [blown, fresh]
  obtain ⟨-, failures⟩ := failures_vetted .standard (fun _ => Bell.digest) history hblown
  constructor
  · obtain ⟨f, depth, code, left, hmem⟩ := blames_blown.1
    obtain ⟨after, before, htrail⟩ := List.append_of_mem hmem
    exact (failures _ _ _ _ _ _ _ _ htrail).2.1 "Blown" "a" rfl
  · obtain ⟨f, depth, code, left, hmem⟩ := blames_blown.2
    obtain ⟨after, before, htrail⟩ := List.append_of_mem hmem
    exact ⟨after, f, depth, code, left, before, htrail,
      ((failures _ _ _ _ _ _ _ _ htrail).2.2 _ _ rfl).1 rfl⟩

end Machine
end ContractVM
