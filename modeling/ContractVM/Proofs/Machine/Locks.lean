/-
The locks of a machine are those of the guarded activations on the stack.

Between operations nothing is locked (`Reachable.unlocked`), so at every moment of a
transaction the locks are those that its own activations took, one for each storage
address.  A frame that a call opens finds its lock free, because the call has looked;
whatever blames a lock therefore asked for it in the middle of a body.
-/
import ContractVM.Proofs.Exec.Moment
import ContractVM.Proofs.Machine.Lasting

namespace ContractVM

/-! ## Between operations -/

theorem Operation.locks_after {m : Machine} (idle : m.storage.layers = []) (op : Operation) :
    (op.after m).locks = m.locks := by
  have ends := op.ends idle
  generalize op.succeeds m = b at ends
  generalize op.after m = m' at ends ⊢
  cases ends with
  | failed | undeployed | blockSet => rfl
  | deployed _ _ _ _ commits => exact commits.locks
  | called _ _ commits => exact commits.locks
  | funded commits => exact commits.locks
  | terminated _ _ commits => exact commits.locks

theorem Machine.locks_perform {m : Machine} (idle : m.storage.layers = []) (ops : List Operation) :
    (m.perform ops).locks = m.locks := by
  induction ops generalizing m with
  | nil => rfl
  | cons op rest ih => exact (ih (op.idle_after idle)).trans (op.locks_after idle)

theorem Machine.Reachable.unlocked {m : Machine} (h : m.Reachable) : m.locks = [] := by
  obtain ⟨settings, hash, ops, rfl⟩ := h
  exact Machine.locks_perform rfl ops

/-! ## Failures of a frame -/

/-- If a frame failed because of a lock, then it executed, and a body that it ran, or one
deeper in its calls, asked for a lock that was taken. -/
def BlamesBody (env : Environment) (r : Request) (s : Site)
    (res : EStateM.Result Fault Site (Option Value)) : Prop :=
  ∀ c p t, res = .error (.raised c p) t → c.kind = .reentrancyBlocked →
    t.frame.phase = .executing ∧
      ∃ K sc u a, Moment (.frame env r) s K (.body sc) none u ∧ sc.Blocked u a ∧
        c = .alreadyEntered a

theorem Exec.attempt_blames {env : Environment} {r : Request} {s : Site}
    (pending : s.frame.phase = .pending) (free : (Place.frame env r).Free s) (depth : Nat) :
    BlamesBody env r s (attempt (runBody depth) env r s) := by
  intro c p t hres hc
  have lives := attempt_lives (runBody_follows depth) env r pending
  rw [hres] at lives
  exact ⟨lives.1.blamed_frame hc free, lives.1.blames rfl hc free⟩

/-- Every step of a frame is that of a moment of it. -/
theorem Exec.attempt_seen {env : Environment} {r : Request} {s : Site}
    (pending : s.frame.phase = .pending) (depth : Nat) :
    Seen (.frame env r) s s.world.trail (endSite (attempt (runBody depth) env r s)).world.trail := by
  have lives := attempt_lives (runBody_follows depth) env r pending
  cases hres : attempt (runBody depth) env r s with
  | ok v t =>
    rw [hres] at lives
    exact lives.1.seen
  | error f t =>
    rw [hres] at lives
    exact lives.1.seen

namespace Machine

variable {m : Machine}

/-- At every moment of a transaction, and there is one for each of its steps, the locked
addresses are the storages of the guarded activations on the stack, and no storage has two
of them.  So a function or fallback that is declared as not reentrant executes as such an
activation, and its storage has no other.  A frame never fails because of its own lock,
neither the first nor one that a call opens.  Before and after every operation nothing is
locked. -/
theorem locks_follow_activations (reachable : m.Reachable) :
    (m.locks = [] ∧ ∀ op : Operation, (op.after m).locks = []) ∧
    (∀ (env : Environment) (r : Request) (meter : GasMeter),
      (∀ K q e u, Moment (.frame env r) (m.topSite (m.topFrame r meter)) K q e u →
        u.world.locks = (Activation.locked K).reverse ∧ (Activation.locked K).Nodup ∧
          q.Alone K) ∧
      ∀ depth, Seen (.frame env r) (m.topSite (m.topFrame r meter))
          (m.topSite (m.topFrame r meter)).world.trail
          (Exec.endSite (Exec.attempt (runBody depth) env r
            (m.topSite (m.topFrame r meter)))).world.trail ∧
        BlamesBody env r (m.topSite (m.topFrame r meter))
          (Exec.attempt (runBody depth) env r (m.topSite (m.topFrame r meter)))) ∧
    ∀ (sc : Scope) (s : Site) (o : Opening sc s) (depth : Nat),
      BlamesBody sc.env o.request o.site
        (Exec.attempt (runBody depth) sc.env o.request o.site) := by
  have unlocked := reachable.unlocked
  refine ⟨⟨unlocked, fun op => (op.locks_after reachable.idle).trans unlocked⟩, ?_, ?_⟩
  · intro env r meter
    have htop : (m.topSite (m.topFrame r meter)).world.locks = [] := unlocked
    refine ⟨fun K q e u h => ?_, fun depth => ⟨Exec.attempt_seen rfl depth, ?_⟩⟩
    · obtain ⟨hlocks, nodup⟩ := h.locks_of_idle htop
      exact ⟨hlocks, nodup, h.alone nodup⟩
    · refine Exec.attempt_blames rfl (fun c _ _ => ?_) depth
      rw [htop]
      exact List.not_mem_nil
  · intro sc s o depth
    exact Exec.attempt_blames rfl o.free depth

/-! ## A function that invokes itself -/

namespace Gate

def enter : FunctionDef where
  name := "enter"
  visibility := .public
  mutability := .mutating
  nonReentrant := true
  body := [.invoke "enter" none none]

def code : ContractCode where
  name := "Gate"
  functions := [enter]

def deployed : Machine :=
  (start .standard fun _ => Bell.digest).perform [.deploy code ∅ Address.zero 0 none]

def request : Request := topRequest Address.zero Bell.address (.named "enter") ∅ 0 100000

def top : Site := deployed.topSite (deployed.topFrame request ⟨100000, 100000⟩)

/-- Whether a frame failed because of the lock of the one contract there is. -/
def isBlocked : EStateM.Result Fault Site (Option Value) → Bool
  | .error (.raised c _) _ => decide (c = .alreadyEntered Bell.address)
  | _ => false

theorem isBlocked_iff {res : EStateM.Result Fault Site (Option Value)} :
    isBlocked res = true ↔ ∃ p t, res = .error (.raised (.alreadyEntered Bell.address) p) t := by
  constructor
  · intro h
    unfold isBlocked at h
    split at h
    · exact ⟨_, _, by rw [of_decide_eq_true h]⟩
    · cases h
  · rintro ⟨p, t, rfl⟩
    rfl

end Gate

open Gate in
theorem locks_follow_activations_gate :
    ((Operation.call Address.zero Bell.address "enter" ∅ 0 none).after deployed).locks = [] ∧
      ∃ K sc u, Moment (.frame deployed.environment request) top K (.body sc) none u ∧
        u.world.locks = (Activation.locked K).reverse ∧ Bell.address ∈ Activation.locked K := by
  have reachable : deployed.Reachable := ⟨.standard, _, [_], rfl⟩
  refine ⟨(locks_follow_activations reachable).1.2 _, ?_⟩
  have hblocked : isBlocked (Exec.attempt (runBody 3) deployed.environment request top) = true := by
    decide +kernel
  obtain ⟨p, t, hres⟩ := isBlocked_iff.1 hblocked
  obtain ⟨hlocks, hrun⟩ :=
    (locks_follow_activations reachable).2.1 deployed.environment request ⟨100000, 100000⟩
  obtain ⟨-, K, sc, u, a, hu, blocked, ha⟩ := (hrun 3).2 _ p t hres rfl
  have hK := (hlocks K _ none u hu).1
  refine ⟨K, sc, u, hu, hK, ?_⟩
  rw [Cause.alreadyEntered.inj ha, ← List.mem_reverse, ← hK]
  exact blocked.taken

end Machine
end ContractVM
