/-
What code can do to its site, as a relation.

`Run p s e t` says that code at the place `p` takes the site `s` to `t`, and
that it ends there with the fault `e`, or goes on if `e` is `none`.  The
constructors are the changes an instruction can make and the three ways in which
the frame of a callee ends.  Nothing here computes: a fact about everything that
code can do is an induction over this relation, with one case for every kind of
change, and never looks at the instructions again.

A place says which changes are possible.  A frame moves value while it binds, takes
its lock when it is admitted to its entry point, and runs bodies while it executes.
-/
import ContractVM.Exec.Instr

namespace ContractVM

/-! ## Places -/

/-- Where code stands: in the life of a frame up to its commit, in one of the
two parts of that life, or in a body. -/
inductive Place where
  | frame (env : Environment) (r : Request)
  | binding (env : Environment) (r : Request)
  | executing (env : Environment) (r : Request)
  | body (sc : Scope)

/-- A place in the life of a frame, where one change may follow another. -/
class Place.Inner (p : Place) : Prop where
  not_frame : ∀ env r, p ≠ .frame env r

instance (env : Environment) (r : Request) : (Place.binding env r).Inner := ⟨fun _ _ h => by cases h⟩

instance (env : Environment) (r : Request) : (Place.executing env r).Inner := ⟨fun _ _ h => by cases h⟩

instance (sc : Scope) : (Place.body sc).Inner := ⟨fun _ _ h => by cases h⟩

def Scope.inner (sc : Scope) (f : Owned FunctionDef) (args : Args) : Scope :=
  ⟨sc.env, sc.contract, f.owner, sc.mutability.narrower f.item.mutability, args⟩

/-- Whether code may change anything but its locals and its gas. -/
def Scope.MayWrite (sc : Scope) (flags : FrameFlags) : Prop :=
  flags.isStatic = false ∧ 2 ≤ sc.mutability.rank

/-- The scopes in which the bodies of an entry point run. -/
def Bound.scopes (env : Environment) (c : Contract) : Bound → List Scope
  | .construct inits => inits.map fun i => ⟨env, c, i.1.owner, .payable, i.2⟩
  | .fallback fb =>
    [⟨env, c, fb.owner, if fb.item.payable then .payable else .mutating, ∅⟩]
  | .function fn args => [⟨env, c, fn.owner, fn.item.mutability, args⟩]

/-! ## Entry points -/

/-- The ways in which a request is bound. -/
inductive Contract.Binds (c : Contract) (r : Request) : Bound → Prop
  | construct {args} (selected : r.selector = .construct)
    (fits : Args.bindEach (c.inits.map (·.item.params)) r.args = .ok args) :
    Binds c r (.construct (c.inits.zip args))
  | function {fn f args} (named : r.selector = .named fn) (found : c.function? fn = some f)
    (pays : 0 < r.value → f.item.mutability = .payable)
    (fits : r.args.bindTo f.item.params = .ok args) : Binds c r (.function f args)
  | fallback {fn fb} (named : r.selector = .named fn) (missing : c.function? fn = none)
    (found : c.fallback = some fb) : Binds c r (.fallback fb)

namespace Contract

variable {c : Contract} {r : Request} {b : Bound}

theorem Binds.of_constructors (selected : r.selector = .construct)
    (h : c.bindConstructors r = .ok b) : c.Binds r b := by
  unfold bindConstructors at h
  split at h
  · cases h
  · split at h
    · cases h
    · next fits =>
      cases h
      exact .construct selected fits

theorem Binds.of_named {fn : String} (named : r.selector = .named fn)
    (h : c.bindNamed fn r = .ok b) : c.Binds r b := by
  unfold bindNamed at h
  split at h
  · next f found =>
    split at h
    · cases h
    · split at h
      · cases h
      · next hpays =>
        rw [not_and, Classical.not_not] at hpays
        split at h
        · cases h
        · next fits =>
          cases h
          exact .function named found hpays fits
  · next missing =>
    split at h
    · next fb found =>
      split at h
      · cases h
      · cases h
        exact .fallback named missing found
    · cases h

theorem bind_cases (h : c.bind r = .ok b) : c.Binds r b := by
  unfold bind at h
  split at h
  · next selected => exact .of_constructors selected h
  · next fn named => exact .of_named named h

end Contract

/-- Whether a request was bound to a function or fallback that is declared as not reentrant. -/
def Bound.nonReentrant : Bound → Bool
  | .construct _ => false
  | .fallback fb => fb.item.nonReentrant
  | .function fn _ => fn.item.nonReentrant

/-- A request takes a lock if what it is bound to is declared as not reentrant. -/
theorem Contract.takesLock_of_bind {c : Contract} {r : Request} {b : Bound}
    (h : c.bind r = .ok b) : c.takesLock r = b.nonReentrant := by
  unfold takesLock
  cases bind_cases h with
  | construct selected => rw [selected]; rfl
  | function named found =>
    rw [named]
    simp only [isGuarded, found]
    rfl
  | fallback named missing found =>
    rw [named]
    simp only [isGuarded, missing, found]
    rfl

/-! ## Requests for a lock -/

/-- A body asks for a lock that is taken: it calls a guarded entry point, or invokes a
guarded function. -/
inductive Scope.Blocked (sc : Scope) (s : Site) : Address → Prop
  | call (spec : CallSpec) {target callee a} (found : sc.env.registry.find? target = some callee)
    (guarded : callee.isGuarded spec.fn = true)
    (storage : a = if spec.kind = .delegate then s.frame.ctx.self else target)
    (taken : a ∈ s.world.locks) : Blocked sc s a
  | invoke (fn : String) {f} (found : Exec.invocable sc fn = .ok f)
    (guarded : f.item.nonReentrant = true) (taken : s.frame.ctx.self ∈ s.world.locks) :
    Blocked sc s s.frame.ctx.self

/-! ## Changes of a site -/

namespace GasMeter

/-- `m'` is `m` after some fees, none of which was negative. -/
def Spends (m m' : GasMeter) : Prop :=
  m'.budget = m.budget ∧ m'.left ≤ m.left ∧ (0 ≤ m.left → 0 ≤ m'.left)

theorem Spends.refl (m : GasMeter) : m.Spends m := ⟨rfl, Int.le_refl _, id⟩

theorem Spends.trans {a b c : GasMeter} (hab : a.Spends b) (hbc : b.Spends c) : a.Spends c :=
  ⟨hbc.1.trans hab.1, Int.le_trans hbc.2.1 hab.2.1, fun h => hbc.2.2 (hab.2.2 h)⟩

theorem Spends.of_charge {m m' : GasMeter} {n : Int} (hn : 0 ≤ n) (h : m.charge n = .ok m') :
    m.Spends m' := by
  obtain ⟨hle, rfl⟩ := charge_eq_ok_iff.1 h
  refine ⟨rfl, ?_, fun _ => ?_⟩
  · show m.left - n ≤ m.left
    omega
  · show 0 ≤ m.left - n
    omega

end GasMeter

/-- The steps that release the tokens of the frame `f`. -/
def Trail.releases (f : Nat) (tokens : List LockToken) : Trail :=
  (tokens.map fun t => Step.unlocked f t.address).reverse

namespace Site

def lock (s : Site) (a : Address) : Site :=
  note { s with world := { s.world with locks := s.world.locks ++ [a] } } (.locked s.frame.id a)

/-- Gas that a callee has left goes back to its caller. -/
def refund (s : Site) (n : Int) : Site := s.withMeter (s.frame.meter.refund n)

/-- A frame that has bound its request goes on to its entry point.  If this is
guarded, the lock of the storage address has to be free and is taken. -/
inductive Admits (env : Environment) (r : Request) (s : Site) : Bool → Site → Prop
  | freely {c} (found : env.registry.find? r.codeAddress = some c)
    (unguarded : c.takesLock r = false) : Admits env r s false s
  | locking {c} (found : env.registry.find? r.codeAddress = some c)
    (guarded : c.takesLock r = true) (free : r.storageAddress ∉ s.world.locks) :
    Admits env r s true
      { s.lock r.storageAddress with frame := s.frame.hold ⟨r.storageAddress, true⟩ }

end Site

/-! ## Calls that open a frame -/

/-- What a call with a value of `amount` costs its caller beside the gas it
forwards. -/
def Fee.ofCall (amount : Int) : Int := Fee.call + if 0 < amount then Fee.callValue else 0

/-- What a callee gets for free when `amount` comes with the call. -/
def Fee.stipend (amount : Int) : Int := if 0 < amount then Fee.callStipend else 0

/-- A call at the site `s` that reached code and is paid for: `charged` is the
caller's meter after the fee, `paid` the one after the gas it forwards, and
`meter` belongs to the callee. -/
structure Opening (sc : Scope) (s : Site) where
  spec : CallSpec
  target : Address
  callee : Contract
  args : Args
  amount : Int
  requested : Option Int
  charged : GasMeter
  paid : GasMeter
  meter : GasMeter
  target_valid : Address.isValid target = true
  found : sc.env.registry.find? target = some callee
  shallow : sc.env.maxCallDepth.lt (.ofNat (s.frame.depth + 1)) = false
  writable : 0 < amount → sc.MayWrite s.frame.flags
  delegated : spec.kind = .delegate → amount = 0
  unlocked : callee.isGuarded spec.fn = true →
    s.world.locks.isLocked (if spec.kind = .delegate then s.frame.ctx.self else target) = false
  idle : s.frame.active = none
  constructing : s.frame.flags.constructing = false
  fee : s.frame.meter.charge (Fee.ofCall amount) = .ok charged
  forward : charged.charge (Exec.forwarded charged.left requested) = .ok paid
  budget : GasMeter.ofBudget?
    (Exec.forwarded charged.left requested + Fee.stipend amount) = some meter

namespace Opening

variable {sc : Scope} {s : Site}

def request (o : Opening sc s) : Request :=
  Exec.request sc o.spec s.frame o.target o.args o.amount
    (Exec.forwarded o.charged.left o.requested + Fee.stipend o.amount)

def child (o : Opening sc s) : Frame :=
  Frame.start s.world.opened (some s.frame) (o.request.context sc.env.block) o.request.flags o.meter

def parent (o : Opening sc s) : Frame :=
  { s.frame with meter := o.paid, active := some s.world.opened }

def caller (o : Opening sc s) : Site := s.withMeter o.paid

def site (o : Opening sc s) : Site := ⟨s.world.enter o.child, o.child, ∅⟩

end Opening

/-! ## The relation -/

inductive Run : Place → Site → Option Fault → Site → Prop
  -- Within a life
  | refl {p : Place} {s} [p.Inner] : Run p s none s
  | trans {p : Place} {s t u e} [p.Inner] (first : Run p s none t) (rest : Run p t e u) : Run p s e u
  | raise {p : Place} {s} [p.Inner] (c : Cause) (unlocked : c.kind ≠ .reentrancyBlocked) :
    Run p s (some (.raised c false)) s
  /-- A fault for which there has to be no layer to write to, or a callee that
  still runs. -/
  | stuck {p : Place} {s} [p.Inner] (m : Misuse) (meter : GasMeter)
    (h : s.world.storage.layers = [] ∨ s.frame.active ≠ none) :
    Run p s (some (.misuse m)) (s.withMeter meter)
  | spend {p : Place} {s m} [p.Inner] (h : s.frame.meter.Spends m) : Run p s none (s.withMeter m)
  -- In a body
  | exhaust {sc s} : Run (.body sc) s (some .exhausted) s
  | blocked {sc s a} (h : sc.Blocked s a) :
    Run (.body sc) s (some (.raised (.alreadyEntered a) false)) s
  | boundary {sc s} :
    Run (.body sc) s none (s.note (.boundary s.frame.id s.frame.meter.left))
  | assign {sc s} (name : String) (v : Value) : Run (.body sc) s none (s.setLocal name v)
  | write {sc s key v cls storage m} (may : sc.MayWrite s.frame.flags)
    (h : s.world.storage.write s.frame.ctx.self key v s.frame.meter = .ok (cls, storage, m)) :
    Run (.body sc) s none ((s.withStorage storage).withMeter m)
  | emit {sc s} (may : sc.MayWrite s.frame.flags) (name : String) (fields : List LoggedField) :
    Run (.body sc) s none
      (Site.note { s with frame := s.frame.emit ⟨s.frame.ctx.self, name, fields⟩ }
        (.emitted s.frame.id ⟨s.frame.ctx.self, name, fields⟩))
  | destroy {sc s target storage} (may : sc.MayWrite s.frame.flags)
    (valid : Address.isValid target = true)
    (h : s.world.storage.transfer s.frame.ctx.self target
      (s.world.storage.balanceOf s.frame.ctx.self) = .ok storage) :
    Run (.body sc) s none
      (Site.note { s.withStorage storage with frame := s.frame.terminate s.frame.ctx.self }
        (.destroyed s.frame.id s.frame.ctx.self))
  -- Invocations
  | jump {sc s m} (fn : String) (h : s.frame.meter.charge Fee.jump = .ok m) :
    Run (.body sc) s none ((s.withMeter m).note (.invoked s.frame.id fn))
  | invoke {sc s f args e t} (fn : String) (found : Exec.invocable sc fn = .ok f)
    (unguarded : f.item.nonReentrant = false)
    (h : Run (.body (sc.inner f args)) { s with locals := ∅ } e t) :
    Run (.body sc) s e { t with locals := s.locals }
  | guarded {sc s f args e t} (fn : String) (found : Exec.invocable sc fn = .ok f)
    (guarded : f.item.nonReentrant = true) (free : s.frame.ctx.self ∉ s.world.locks)
    (h : Run (.body (sc.inner f args)) { s.lock s.frame.ctx.self with locals := ∅ } e t) :
    Run (.body sc) s e (Site.unlock { t with locals := s.locals } [⟨s.frame.ctx.self, true⟩])
  -- Calls
  | send {sc s target amount storage} (valid : Address.isValid target = true)
    (may : 0 < amount → sc.MayWrite s.frame.flags)
    (codeless : sc.env.registry.find? target = none)
    (h : s.world.storage.transfer s.frame.ctx.self target amount = .ok storage) :
    Run (.body sc) s none (s.withStorage storage)
  | swallow {sc s} (fn : String) (c : Cause) :
    Run (.body sc) s none (s.note (.callFailed s.frame.id fn c))
  /-- Asked for so little that even a stipend leaves the callee nothing. -/
  | overdraw {sc s n m} (negative : n < 0) (h : s.frame.meter.charge n = .ok m) :
    Run (.body sc) s (some .negativeBudget) (s.withMeter m)
  | committed {sc s t t' parent} (o : Opening sc s)
    (h : Run (.frame sc.env o.request) o.site none t)
    (ended : t.commitTo o.parent = .ok (t', parent)) :
    Run (.body sc) s none ((o.caller.leave t' parent).refund t'.frame.meter.left)
  /-- The failure of a callee goes on as that of its caller. -/
  | passed {sc s t t' c p left} (o : Opening sc s)
    (h : Run (.frame sc.env o.request) o.site (some (.raised c p)) t)
    (ended : t.revert c p = .ok (.reverted c left, t')) :
    Run (.body sc) s (some (.raised c true)) ((o.caller.leave t' o.parent).refund left)
  /-- The failure of a callee ends in the success flag of the call. -/
  | caught {sc s t t' c p left} (fn : String) (locals : Table Value) (o : Opening sc s)
    (h : Run (.frame sc.env o.request) o.site (some (.raised c p)) t)
    (ended : t.revert c p = .ok (.reverted c left, t')) :
    Run (.body sc) s none
      (Site.note { (o.caller.leave t' o.parent).refund left with locals := locals }
        (.callFailed s.frame.id fn c))
  | aborted {sc s t f storage} (o : Opening sc s)
    (h : Run (.frame sc.env o.request) o.site (some f) t)
    (foreign : ∀ c p, f ≠ .raised c p)
    (ended : t.world.storage.rollback = .ok storage) :
    Run (.body sc) s (some f) (o.caller.leave (t.withStorage storage) o.parent)
  -- While binding
  | pay {env r s c b storage} (found : env.registry.find? r.codeAddress = some c)
    (bound : c.bind r = .ok b) (transfers : r.transfers = true)
    (h : s.world.storage.transfer r.caller r.storageAddress r.value = .ok storage) :
    Run (.binding env r) s none (s.withStorage storage)
  /-- The lock that the frame needs is taken. -/
  | occupied {env r s c} (found : env.registry.find? r.codeAddress = some c)
    (guarded : c.takesLock r = true) (taken : r.storageAddress ∈ s.world.locks) :
    Run (.binding env r) s (some (.raised (.alreadyEntered r.storageAddress) false)) s
  -- While executing
  | start {env r s c b sc e t} (found : env.registry.find? r.codeAddress = some c)
    (bound : c.bind r = .ok b) (entered : sc ∈ b.scopes env c)
    (h : Run (.body sc) { s with locals := ∅ } e t) :
    Run (.executing env r) s e { t with locals := s.locals }
  -- The life of a frame
  | refused {env r s f e t} (moved : s.frame.transition .binding = .ok f)
    (bind : Run (.binding env r) { s with frame := f } (some e) t) :
    Run (.frame env r) s (some e) t
  | failed {env r s t u v f g e b} (moved : s.frame.transition .binding = .ok f)
    (bind : Run (.binding env r) { s with frame := f } none t) (admits : t.Admits env r b u)
    (moved' : u.frame.transition .executing = .ok g)
    (exec : Run (.executing env r) { u with frame := g } (some e) v) :
    Run (.frame env r) s (some e) v
  | finished {env r s t u v f g h b} (moved : s.frame.transition .binding = .ok f)
    (bind : Run (.binding env r) { s with frame := f } none t) (admits : t.Admits env r b u)
    (moved' : u.frame.transition .executing = .ok g)
    (exec : Run (.executing env r) { u with frame := g } none v)
    (moved'' : v.frame.transition .committing = .ok h) :
    Run (.frame env r) s none { v with frame := h }

end ContractVM
