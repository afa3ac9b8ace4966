/-
What code computes whose constants are not negative.

Integers have no lower bound while they are computed, but the operators fail where a
result would be negative, and values that cross the border of a function or go into an
event are checked against its types.  So negative integers come from constants, and from
the block.  `unsigned` says of code that no negative constant gets to where it binds a
name, writes a slot or pays a callee, and `Expr.eval_unsigned` that no negative integer
does either.
-/
import ContractVM.Contract.Flatten
import ContractVM.Proofs.Exec.Following
import ContractVM.Proofs.Journal.Codec
import ContractVM.Proofs.Storage.Layer
import ContractVM.Proofs.Storage.Total

namespace ContractVM

/-! ## Code -/

/-- No negative integer. -/
def Value.unsigned : Value → Bool
  | .int n => decide (0 ≤ n)
  | .bool _ | .text _ => true

/-- No negative constant comes out of the expression, as it is or by way of operators. -/
def Expr.unsigned : Expr → Bool
  | .const v => v.unsigned
  | .bin _ left right => left.unsigned && right.unsigned
  | _ => true

/-- The instruction itself binds, writes and pays no negative constant. -/
def Instr.unsigned : Instr → Bool
  | .bind _ e | .sstore _ e => e.unsigned
  | .call spec => spec.value.all Expr.unsigned && spec.gas.all Expr.unsigned
  | _ => true

namespace Contract

def unsignedBody (body : List Instr) : Bool := (walk body).all Instr.unsigned

def unsigned (c : Contract) : Bool := c.bodies.all unsignedBody

end Contract

/-! ## Operators -/

namespace Value

theorem unsigned_int {n : Int} : (Value.int n).unsigned = true ↔ 0 ≤ n := decide_eq_true_iff

theorem unsigned_of_conforms {t : ParamType} {v : Value} (h : conforms t v = true) :
    v.unsigned = true := by
  cases v with
  | bool | text => rfl
  | int n =>
    cases t with
    | uint256 => exact unsigned_int.2 (of_decide_eq_true (Bool.and_eq_true_iff.1 h).1)
    | _ => cases h

theorem unsigned_of_asUint {v : Value} {n : Int} (hv : v.unsigned = true) (h : v.asUint = .ok n) :
    0 ≤ n := by
  cases v with
  | int n => cases h; exact unsigned_int.1 hv
  | _ => cases h

end Value

namespace Operator

variable {l r v : Value}

theorem unsigned_inRange {n : Int} (h : inRange n = .ok v) : v.unsigned = true := by
  unfold inRange at h
  split at h
  · cases h
  · split at h
    · cases h
    · next hn _ =>
      cases h
      exact Value.unsigned_int.2 (Int.not_lt.1 hn)

theorem unsigned_checked {f : Int × Int → Int}
    (h : ((ints l r).bind fun p => inRange (f p)) = .ok v) : v.unsigned = true := by
  cases hp : ints l r with
  | error c => rw [hp] at h; cases h
  | ok p => rw [hp] at h; exact unsigned_inRange h

theorem unsigned_divided {f : Int → Int → Int} (hf : ∀ {n d : Int}, 0 ≤ n → 0 ≤ d → 0 ≤ f n d)
    (hl : l.unsigned = true) (hr : r.unsigned = true) (h : divided f l r = .ok v) :
    v.unsigned = true := by
  unfold divided at h
  split at h
  · cases h
  · next d hd =>
    split at h
    · cases h
    · split at h
      · cases h
      · next n hn =>
        cases h
        exact Value.unsigned_int.2
          (hf (Value.unsigned_of_asUint hl hn) (Value.unsigned_of_asUint hr hd))

theorem unsigned_compared {f : Int → Int → Bool} (h : compared f l r = .ok v) :
    v.unsigned = true := by
  unfold compared at h
  cases hp : ints l r with
  | error c => rw [hp] at h; cases h
  | ok p => rw [hp] at h; cases h; rfl

theorem unsigned_connected {settled : Bool} (h : connected settled l r = .ok v) :
    v.unsigned = true := by
  unfold connected at h
  split at h
  · cases h
  · split at h
    · cases h; rfl
    · cases hb : r.asBool with
      | error c => rw [hb] at h; cases h
      | ok b => rw [hb] at h; cases h; rfl

/-- An operator gives no negative result if it is given no negative operand. -/
theorem unsigned_apply {op : Operator} (hl : l.unsigned = true) (hr : r.unsigned = true)
    (h : op.apply l r = .ok v) : v.unsigned = true := by
  cases op with
  | add => exact unsigned_checked (f := fun p => p.1 + p.2) h
  | sub => exact unsigned_checked (f := fun p => p.1 - p.2) h
  | mul => exact unsigned_checked (f := fun p => p.1 * p.2) h
  | div => exact unsigned_divided Int.tdiv_nonneg hl hr h
  | mod => exact unsigned_divided (fun hn _ => Int.tmod_nonneg _ hn) hl hr h
  | eq | neq => cases h; rfl
  | lt => exact unsigned_compared (f := fun a b => decide (a < b)) h
  | lte => exact unsigned_compared (f := fun a b => decide (a ≤ b)) h
  | gt => exact unsigned_compared (f := fun a b => decide (b < a)) h
  | gte => exact unsigned_compared (f := fun a b => decide (b ≤ a)) h
  | and | or => exact unsigned_connected h

end Operator

/-! ## What code sees -/

/-- No value in a table is a negative integer. -/
def Args.Unsigned (t : Args) : Prop := ∀ name v, t.get? name = some v → v.unsigned = true

namespace Args.Unsigned

variable {t : Args}

theorem empty : Args.Unsigned ∅ := fun _ _ h => nomatch h

theorem set (h : t.Unsigned) (name : String) {v : Value} (hv : v.unsigned = true) :
    Args.Unsigned (t.set name v) := by
  intro name' v' hget
  rw [Table.get?_set] at hget
  split at hget
  · cases hget
    exact hv
  · exact h name' v' hget

end Args.Unsigned

/-- No slot of a layer holds a negative integer. -/
def Layer.Unsigned (l : Layer) : Prop := ∀ a key v, l.slot? a key = some v → v.unsigned = true

/-- Nothing in the storage is negative, neither slots nor balances. -/
structure Storage.Unsigned (s : Storage) : Prop where
  debtless : s.Debtless
  slots : ∀ l ∈ s.layers ++ [s.persisted], l.Unsigned

namespace Layer.Unsigned

variable {l upper : Layer}

theorem empty : Layer.empty.Unsigned := fun _ _ _ h => nomatch h

theorem setSlot (h : l.Unsigned) (a : Address) (key : String) {v : Value} (hv : v.unsigned = true) :
    (l.setSlot a key v).Unsigned := by
  intro b key' v' hget
  rw [Layer.slot?_setSlot] at hget
  split at hget
  · cases hget
    exact hv
  · exact h b key' v' hget

theorem merge (h : l.Unsigned) (hu : upper.Unsigned) : (l.merge upper).Unsigned := by
  intro a key v hget
  rw [Layer.slot?_merge] at hget
  rcases Option.or_eq_some_iff.1 hget with hget | ⟨-, hget⟩
  · exact hu a key v hget
  · exact h a key v hget

theorem foldl_erase (h : l.Unsigned) (destroyed : List Address) :
    (destroyed.foldl Layer.erase l).Unsigned := by
  intro a key v hget
  rw [Layer.slot?_foldl_erase] at hget
  split at hget
  · cases hget
  · exact h a key v hget

end Layer.Unsigned

theorem Layer.Unsigned.setBalance {l : Layer} (h : l.Unsigned) (a : Address) (n : Int) :
    (l.setBalance a n).Unsigned := h

namespace Storage.Unsigned

variable {s t u : Storage}

theorem read (h : s.Unsigned) (a : Address) (key : String) : (s.read a key).unsigned = true := by
  unfold Storage.read
  cases hget : s.peek? a key with
  | none => rfl
  | some v =>
    obtain ⟨l, hl, hslot⟩ := List.exists_of_findSome?_eq_some hget
    exact h.slots l hl a key v hslot

theorem snapshot (h : s.Unsigned) : s.snapshot.Unsigned where
  debtless := h.debtless.snapshot
  slots := List.forall_mem_cons.2 ⟨.empty, h.slots⟩

theorem slots_updateTop (h : ∀ l ∈ s.layers ++ [s.persisted], l.Unsigned) {f : Layer → Layer}
    (hf : ∀ l : Layer, l.Unsigned → (f l).Unsigned) (ht : s.updateTop f = .ok t) :
    ∀ l ∈ t.layers ++ [t.persisted], l.Unsigned := by
  obtain ⟨layers, persisted⟩ := List.forall_mem_append.1 h
  rw [(above_updateTop ht).persisted]
  exact List.forall_mem_append.2 ⟨forall_updateTop layers hf ht, persisted⟩

theorem setSlot (h : s.Unsigned) {a : Address} {key : String} {v : Value} (hv : v.unsigned = true)
    (ht : s.updateTop (·.setSlot a key v) = .ok t) : t.Unsigned where
  debtless := h.debtless.setSlot ht
  slots := slots_updateTop h.slots (fun _ hl => hl.setSlot a key hv) ht

theorem transfer (h : s.Unsigned) {source target : Address} {amount : Int}
    (ht : s.transfer source target amount = .ok t) : t.Unsigned where
  debtless := h.debtless.transfer ht
  slots := by
    rcases transfer_eq_ok ht with ⟨-, rfl⟩ | ⟨-, -, paid, hpaid, ht⟩
    · exact h.slots
    · exact slots_updateTop (slots_updateTop h.slots (fun _ hl => hl.setBalance _ _) hpaid)
        (fun _ hl => hl.setBalance _ _) ht

theorem commit (h : s.Unsigned) {d : Option Delta} (ht : s.commit = .ok (d, t)) : t.Unsigned where
  debtless := h.debtless.commit ht
  slots := by
    obtain ⟨hlayers, hpersisted⟩ := List.forall_mem_append.1 h.slots
    obtain ⟨layers, persisted⟩ := forall_commit hlayers (fun _ _ hl hu => hl.merge hu) ht
    refine List.forall_mem_append.2 ⟨layers, List.forall_mem_singleton.2 ?_⟩
    exact persisted (List.forall_mem_singleton.1 hpersisted)

theorem rollback (h : s.Unsigned) (ht : s.rollback = .ok t) : t.Unsigned where
  debtless := h.debtless.rollback ht
  slots := by
    obtain ⟨top, rfl⟩ := rollback_eq_ok ht
    exact (List.forall_mem_cons.1 h.slots).2

end Storage.Unsigned

/-! ## Evaluation -/

structure Context.Unsigned (ctx : Context) : Prop where
  value : 0 ≤ ctx.value
  timestamp : 0 ≤ ctx.timestamp
  blockNumber : 0 ≤ ctx.blockNumber

structure Sight.Unsigned (s : Sight) : Prop where
  ctx : s.ctx.Unsigned
  args : s.args.Unsigned
  locals : Args.Unsigned s.locals
  storage : s.storage.Unsigned

/-- With gas to begin with, an evaluation gives values that have `Q`. -/
def Yields {α : Type} (act : EvalM α) (Q : α → Prop) : Prop :=
  ∀ m a m', 0 ≤ m.left → act m = .ok a m' → Q a

namespace Yields

variable {α β : Type} {Q : α → Prop} {R : β → Prop}

theorem pure {a : α} (h : Q a) : Yields (Pure.pure a) Q := by
  intro m b m' _ hb
  cases hb
  exact h

theorem bind {act : EvalM α} {f : α → EvalM β} (frugal : Frugal act) (h : Yields act Q)
    (hf : ∀ a, Q a → Yields (f a) R) : Yields (act >>= f) R := by
  intro m b m'' hm hb
  have hspends := frugal m
  have hb' : EStateM.bind act f m = .ok b m'' := hb
  unfold EStateM.bind at hb'
  cases hr : act m with
  | error c m' =>
    rw [hr] at hb'
    cases hb'
  | ok a m' =>
    rw [hr] at hb' hspends
    exact hf a (h m a m' hm hr) m' b m'' (hspends.2.2 hm) hb'

theorem lift {r : Except Cause α} (h : ∀ a, r = .ok a → Q a) : Yields (Eval.lift r) Q := by
  intro m a m' _ ha
  cases r with
  | ok b =>
    cases ha
    exact h a rfl
  | error c => cases ha

/-- For an evaluation whose value does not matter. -/
theorem any (act : EvalM α) : Yields act fun _ => True := fun _ _ _ _ _ => trivial

end Yields

theorem Eval.unsigned_named {t : Args} (h : t.Unsigned) {name : String} {missing : Cause} {v : Value}
    (hv : named t name missing = .ok v) : v.unsigned = true := by
  unfold named at hv
  split at hv
  · next hget =>
    cases hv
    exact h name v hget
  · cases hv

theorem Eval.unsigned_field {s : Sight} (h : s.Unsigned) {left : Int} (hleft : 0 ≤ left)
    (f : EnvField) : (field s left f).unsigned = true := by
  cases f with
  | value => exact Value.unsigned_int.2 h.ctx.value
  | timestamp => exact Value.unsigned_int.2 h.ctx.timestamp
  | blockNumber => exact Value.unsigned_int.2 h.ctx.blockNumber
  | gasLeft => exact Value.unsigned_int.2 hleft
  | sender | origin | self => rfl

theorem Expr.eval_unsigned {s : Sight} (h : s.Unsigned) {e : Expr} (he : e.unsigned = true) :
    Yields (e.eval s) fun v => v.unsigned = true := by
  induction e using Expr.unsigned.induct with
  | case1 v => exact .pure he
  | case2 op left right ihl ihr =>
    obtain ⟨hl, hr⟩ := Bool.and_eq_true_iff.1 he
    refine .bind (left.eval_frugal s) (ihl hl) fun l hl => ?_
    refine .bind (right.eval_frugal s) (ihr hr) fun r hr => ?_
    exact .bind (.spend (by decide)) (.any _) fun _ _ => .lift fun _ => Operator.unsigned_apply hl hr
  | case3 e hconst hbin =>
    cases e with
    | const v => exact absurd rfl (hconst v)
    | bin op left right => exact absurd rfl (hbin op left right)
    | arg name => exact .lift fun _ => Eval.unsigned_named h.args
    | «local» name => exact .lift fun _ => Eval.unsigned_named h.locals
    | env f =>
      refine .bind (.lift (.ensureReadable s _)) (.any _) fun _ _ => ?_
      intro m v m' hm hv
      cases hv
      exact Eval.unsigned_field h hm f
    | balance of =>
      refine .bind (.lift (.ensureReadable s _)) (.any _) fun _ _ => ?_
      refine .bind (of.eval_frugal s) (.any _) fun v _ => ?_
      refine .bind (.lift (.asAddress v)) (.any _) fun a _ => ?_
      refine .bind (.spend (by decide)) (.any _) fun _ _ => .pure ?_
      exact Value.unsigned_int.2 (h.storage.debtless.balanceOf a)
    | slot base keys => exact .bind (Expr.evalAll_frugal s keys) (.any _) fun _ _ => .pure rfl
    | sload key =>
      refine .bind (.lift (.ensureReadable s _)) (.any _) fun _ _ => ?_
      refine .bind (key.eval_frugal s) (.any _) fun v _ => ?_
      exact .bind (.spend (by decide)) (.any _) fun _ _ => .pure (h.storage.read _ _)
    | not e =>
      refine .bind (e.eval_frugal s) (.any _) fun v _ => ?_
      refine .bind (.lift (.asBool v)) (.any _) fun _ _ => ?_
      exact .bind (.spend (by decide)) (.any _) fun _ _ => .pure rfl

/-! ## Arguments -/

namespace Args

variable {args bound : Args}

theorem unsigned_find {p : Param} {v : Value} (h : args.find p = .ok v) : v.unsigned = true := by
  unfold find at h
  split at h
  · split at h
    · next hconforms =>
      cases h
      exact Value.unsigned_of_conforms hconforms
    · cases h
  · split at h <;> cases h

theorem unsigned_findAll {params : List Param} {done : Args} (hdone : done.Unsigned)
    (h : args.findAll params done = .ok bound) : bound.Unsigned := by
  induction params generalizing done with
  | nil =>
    cases h
    exact hdone
  | cons p rest ih =>
    unfold findAll at h
    split at h
    · next v hv => exact ih (hdone.set p.name (unsigned_find hv)) h
    · cases h

/-- What is bound to parameters has their types. -/
theorem unsigned_bindTo {params : List Param} (h : args.bindTo params = .ok bound) :
    bound.Unsigned := by
  unfold bindTo at h
  split at h
  · cases h
  · next hfound =>
    split at h
    · cases h
      exact unsigned_findAll .empty hfound
    · cases h

theorem unsigned_mapM {chain : List (List Param)} {bounds : List Args}
    (h : (chain.mapM fun params => args.findAll params ∅) = .ok bounds) :
    ∀ b ∈ bounds, Args.Unsigned b := by
  induction chain generalizing bounds with
  | nil =>
    cases h
    exact fun _ hb => nomatch hb
  | cons params rest ih =>
    rw [List.mapM_cons] at h
    obtain ⟨first, hfirst, h⟩ := Codec.bind_eq_ok.1 h
    obtain ⟨others, hothers, h⟩ := Codec.bind_eq_ok.1 h
    cases h
    intro b hb
    rcases List.mem_cons.1 hb with rfl | hb
    · exact unsigned_findAll .empty hfirst
    · exact ih hothers b hb

theorem unsigned_bindEach {chain : List (List Param)} {bounds : List Args}
    (h : args.bindEach chain = .ok bounds) : ∀ b ∈ bounds, Args.Unsigned b := by
  unfold bindEach at h
  split at h
  · cases h
  · next hfound =>
    split at h
    · cases h
      exact unsigned_mapM hfound
    · cases h

end Args

theorem FunctionDef.unsigned_result {fn : FunctionDef} {flow : Flow} {v : Option Value}
    (h : fn.result flow = .ok v) : ∀ w, v = some w → w.unsigned = true := by
  have checked {type : ParamType} {u : Value} {c : Cause}
      (h : (if Value.conforms type u then .ok (some u) else .error c) = Except.ok v) :
      ∀ w, v = some w → w.unsigned = true := by
    intro w hw
    split at h
    · next hconforms =>
      cases h
      cases hw
      exact Value.unsigned_of_conforms hconforms
    · cases h
  unfold result at h
  split at h
  · cases h
    exact fun _ hw => nomatch hw
  · exact checked h

/-! ## Entry points -/

/-- What a request is bound to has bodies of the contract, and arguments of their types. -/
def Bound.Unsigned (c : Contract) : Bound → Prop
  | .construct inits => ∀ i ∈ inits, i.1.item.body ∈ c.bodies ∧ i.2.Unsigned
  | .fallback fb => fb.item.body ∈ c.bodies
  | .function fn args => fn.item.body ∈ c.bodies ∧ args.Unsigned

namespace Contract

variable {c : Contract}

theorem body_mem_of_get? {fn : String} {f : Owned FunctionDef} (h : c.functions.get? fn = some f) :
    f.item.body ∈ c.bodies := by
  have hmem : f ∈ c.functions.values :=
    List.mem_map_of_mem (f := Prod.snd) (Table.mem_entries_iff.2 h)
  exact List.mem_append_left _ (List.mem_append_left _ (List.mem_map_of_mem hmem))

theorem body_mem_of_init {i : Owned ConstructorDef} (h : i ∈ c.inits) : i.item.body ∈ c.bodies :=
  List.mem_append_left _ (List.mem_append_right _ (List.mem_map_of_mem h))

theorem body_mem_of_fallback {fb : Owned FallbackDef} (h : c.fallback = some fb) :
    fb.item.body ∈ c.bodies := by
  refine List.mem_append_right _ ?_
  rw [h]
  exact List.mem_singleton.2 rfl

theorem unsigned_bind {r : Request} {b : Bound} (h : c.bind r = .ok b) : b.Unsigned c := by
  cases bind_cases h with
  | construct _ fits =>
    intro i hi
    have hzip := List.of_mem_zip hi
    exact ⟨body_mem_of_init hzip.1, Args.unsigned_bindEach fits i.2 hzip.2⟩
  | function _ found _ fits =>
    unfold function? at found
    split at found
    · cases found
    · exact ⟨body_mem_of_get? found, Args.unsigned_bindTo fits⟩
  | fallback _ _ found => exact body_mem_of_fallback found

end Contract

/-! ## Deployment -/

namespace ContractCode

/-- The bodies that a contract of a chain adds. -/
def ownBodies (code : ContractCode) : List (List Instr) :=
  code.functions.map (·.body) ++ (code.constr.map (·.body)).toList ++
    (code.fallback.map (·.body)).toList

def unsigned (code : ContractCode) : Bool :=
  code.chain.all fun own => own.ownBodies.all Contract.unsignedBody

end ContractCode

namespace Contract

variable {P : List Instr → Prop} {c c' : Contract}

/-- All bodies of a contract have `P`, by where they are. -/
structure EveryBody (P : List Instr → Prop) (c : Contract) : Prop where
  functions : ∀ fn f, c.functions.get? fn = some f → P f.item.body
  inits : ∀ i ∈ c.inits, P i.item.body
  fallback : ∀ fb, c.fallback = some fb → P fb.item.body

theorem EveryBody.bodies (h : c.EveryBody P) : ∀ body ∈ c.bodies, P body := by
  intro body hbody
  rcases List.mem_append.1 hbody with hbody | hbody
  · rcases List.mem_append.1 hbody with hbody | hbody
    · obtain ⟨f, hf, rfl⟩ := List.mem_map.1 hbody
      obtain ⟨⟨fn, g⟩, hentry, rfl⟩ := List.mem_map.1 hf
      exact h.functions fn g (Table.mem_entries_iff.1 hentry)
    · obtain ⟨i, hi, rfl⟩ := List.mem_map.1 hbody
      exact h.inits i hi
  · obtain ⟨fb, hfb, rfl⟩ := Option.map_eq_some_iff.1 (Option.mem_toList.1 hbody)
    exact h.fallback fb hfb

theorem addFunction_eq_ok {owner : String} {table table' : Table (Owned FunctionDef)}
    {fn : FunctionDef} (h : addFunction owner table fn = .ok table') :
    table' = table.set fn.name ⟨owner, fn⟩ := by
  unfold addFunction at h
  split at h
  · split at h <;> cases h
    rfl
  · split at h
    · cases h
    · split at h <;> cases h
      rfl

theorem foldlM_addFunction {owner : String} {table table' : Table (Owned FunctionDef)}
    {fns : List FunctionDef} (h : fns.foldlM (addFunction owner) table = .ok table')
    (htable : ∀ fn f, table.get? fn = some f → P f.item.body) (hfns : ∀ fn ∈ fns, P fn.body) :
    ∀ fn f, table'.get? fn = some f → P f.item.body := by
  induction fns generalizing table with
  | nil =>
    cases h
    exact htable
  | cons fn rest ih =>
    rw [List.foldlM_cons] at h
    obtain ⟨mid, hmid, h⟩ := Codec.bind_eq_ok.1 h
    rw [addFunction_eq_ok hmid] at h
    refine ih h (fun name f hf => ?_) fun g hg => hfns g (List.mem_cons_of_mem fn hg)
    rw [Table.get?_set] at hf
    split at hf
    · cases hf
      exact hfns fn List.mem_cons_self
    · exact htable name f hf

theorem EveryBody.addCode (h : c.EveryBody P) {code : ContractCode}
    (hcode : ∀ body ∈ code.ownBodies, P body) (hc : c.addCode code = .ok c') :
    c'.EveryBody P := by
  have hfunctions : ∀ fn ∈ code.functions, P fn.body := fun fn hfn =>
    hcode _ (List.mem_append_left _ (List.mem_append_left _ (List.mem_map_of_mem hfn)))
  have hconstr : ∀ d, code.constr = some d → P d.body := fun d hd =>
    hcode _ (List.mem_append_left _ (List.mem_append_right _ (by rw [hd]; exact List.mem_singleton.2 rfl)))
  have hfallback : ∀ fb, code.fallback = some fb → P fb.body := fun fb hfb =>
    hcode _ (List.mem_append_right _ (by rw [hfb]; exact List.mem_singleton.2 rfl))
  unfold Contract.addCode at hc
  split at hc
  · cases hc
  · next hadded =>
    split at hc
    · cases hc
    · cases hc
      refine ⟨foldlM_addFunction hadded h.functions hfunctions, fun i hi => ?_, fun fb hfb => ?_⟩
      · rcases List.mem_append.1 hi with hi | hi
        · exact h.inits i hi
        · obtain ⟨d, hd, rfl⟩ := Option.map_eq_some_iff.1 (Option.mem_toList.1 hi)
          exact hconstr d hd
      · rcases Option.or_eq_some_iff.1 hfb with hfb | ⟨-, hfb⟩
        · obtain ⟨d, hd, rfl⟩ := Option.map_eq_some_iff.1 hfb
          exact hfallback d hd
        · exact h.fallback fb hfb

theorem EveryBody.addChain {chain : List ContractCode} (h : c.EveryBody P)
    (hchain : ∀ own ∈ chain, ∀ body ∈ own.ownBodies, P body)
    (hc : chain.foldlM Contract.addCode c = .ok c') : c'.EveryBody P := by
  induction chain generalizing c with
  | nil =>
    cases hc
    exact h
  | cons own rest ih =>
    rw [List.foldlM_cons] at hc
    obtain ⟨mid, hmid, hc⟩ := Codec.bind_eq_ok.1 hc
    exact ih (h.addCode (hchain own List.mem_cons_self) hmid)
      (fun other hother => hchain other (List.mem_cons_of_mem own hother)) hc

/-- A contract has only bodies that were written in its chain. -/
theorem mem_bodies_flatten {a : Address} {code : ContractCode} (h : flatten a code = .ok c)
    {body : List Instr} (hbody : body ∈ c.bodies) : ∃ own ∈ code.chain, body ∈ own.ownBodies := by
  have every : c.EveryBody fun body => ∃ own ∈ code.chain, body ∈ own.ownBodies := by
    refine EveryBody.addChain ⟨fun _ _ hf => ?_, fun _ hi => ?_, fun _ hfb => ?_⟩
      (fun own hown body hbody => ⟨own, hown, hbody⟩) (flatten_eq_ok.1 h).1
    · cases hf
    · cases hi
    · cases hfb
  exact every.bodies body hbody

theorem unsigned_flatten {a : Address} {code : ContractCode} (h : flatten a code = .ok c)
    (hcode : code.unsigned = true) : c.unsigned = true := by
  refine List.all_eq_true.2 fun body hbody => ?_
  obtain ⟨own, hown, hbody⟩ := mem_bodies_flatten h hbody
  exact List.all_eq_true.1 (List.all_eq_true.1 hcode own hown) body hbody

end Contract

end ContractVM
