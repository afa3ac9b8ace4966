/-
What lasts of a transaction, read off its trail.

A frame lasts if it committed and its caller lasts, up to the first frame, which
has no caller.  `lastingEvents` and `lastingEnds` are what lasting frames emitted
and destroyed, in the order in which it happened.  Neither knows of buffers, so
they can say what buffers have to achieve.

A trail comes in segments, one for each stretch of code, and a frame that is
still running has to be taken for lasting while its segment is read.  So `lasts`
stops at a given caller, and `Segment` collects what is needed to read a segment
on its own: the frames opened in it have numbers of their own, and nothing in it
ends a frame that was open before.
-/
import ContractVM.Trail

namespace ContractVM

namespace Step

def emission? : Step → Option (Nat × Event)
  | emitted f e => some (f, e)
  | _ => none

def destruction? : Step → Option (Nat × Address)
  | destroyed f a => some (f, a)
  | _ => none

def opening? : Step → Option (Nat × Option Nat)
  | opened f p _ _ _ _ => some (f, p)
  | _ => none

def commit? : Step → Option Nat
  | committed f _ => some f
  | _ => none

def undoing? : Step → Option Nat
  | reverted f _ _ _ _ _ => some f
  | _ => none

def actor? : Step → Option (Nat × Address)
  | emitted f e => some (f, e.address)
  | destroyed f a => some (f, a)
  | _ => none

def acting? : Step → Option (Nat × Address)
  | opened f _ _ self _ _ => some (f, self)
  | _ => none

end Step

namespace Trail

def Committed (t : Trail) (f : Nat) : Prop := f ∈ t.filterMap Step.commit?

def Undone (t : Trail) (f : Nat) : Prop := f ∈ t.filterMap Step.undoing?

instance (t : Trail) (f : Nat) : Decidable (t.Committed f) :=
  inferInstanceAs (Decidable (f ∈ t.filterMap Step.commit?))

instance (t : Trail) (f : Nat) : Decidable (t.Undone f) :=
  inferInstanceAs (Decidable (f ∈ t.filterMap Step.undoing?))

/-- The caller of a frame that was opened, if it has one. -/
def caller? (t : Trail) (f : Nat) : Option (Option Nat) := (t.filterMap Step.opening?).lookup f

/-- Whether a frame and all its callers below `base` have committed. -/
def lasts (t : Trail) (base : Option Nat) (f : Nat) : Bool :=
  decide (t.Committed f) && match t.caller? f with
    | none => false
    | some none => decide (base = none)
    | some (some p) => decide (base = some p) || if p < f then t.lasts base p else false
termination_by f

variable {α : Type}

/-- What frames that `keep` holds of did, in the order of the steps. -/
def did (t : Trail) (what : Step → Option (Nat × α)) (keep : Nat → Bool) : List α :=
  ((t.reverse.filterMap what).filter fun x => keep x.1).map Prod.snd

def lastingEvents (t : Trail) : List Event := t.did Step.emission? (t.lasts none)

def lastingEnds (t : Trail) : List Address := t.did Step.destruction? (t.lasts none)

/-! ## Reading appended trails -/

variable {t u : Trail} {what : Step → Option (Nat × α)} {keep keep' : Nat → Bool}

theorem did_append : (u ++ t).did what keep = t.did what keep ++ u.did what keep := by
  unfold did
  rw [List.reverse_append, List.filterMap_append, List.filter_append, List.map_append]

theorem did_congr (h : ∀ x ∈ t.filterMap what, keep x.1 = keep' x.1) :
    t.did what keep = t.did what keep' := by
  unfold did
  congr 1
  refine List.filter_congr fun x hx => h x ?_
  rw [List.filterMap_reverse, List.mem_reverse] at hx
  exact hx

theorem did_eq_nil (h : ∀ x ∈ t.filterMap what, keep x.1 = false) : t.did what keep = [] := by
  unfold did
  rw [List.map_eq_nil_iff, List.filter_eq_nil_iff]
  intro x hx
  rw [List.filterMap_reverse, List.mem_reverse] at hx
  rw [h x hx]
  exact Bool.false_ne_true

theorem committed_append {f : Nat} : (u ++ t).Committed f ↔ u.Committed f ∨ t.Committed f := by
  unfold Committed
  rw [List.filterMap_append, List.mem_append]

theorem caller?_append {f : Nat} : (u ++ t).caller? f = (u.caller? f).or (t.caller? f) := by
  unfold caller?
  rw [List.filterMap_append, List.lookup_append]

theorem caller?_eq_none {f : Nat} (h : ∀ x ∈ t.filterMap Step.opening?, x.1 ≠ f) :
    t.caller? f = none := by
  unfold caller?
  rw [List.lookup_eq_none_iff]
  exact fun x hx => by simpa using (h x hx).symm

theorem mem_of_caller? {f : Nat} {p : Option Nat} (h : t.caller? f = some p) :
    (f, p) ∈ t.filterMap Step.opening? := by
  obtain ⟨before, after, hl, -⟩ := List.lookup_eq_some_iff.1 h
  rw [hl]
  exact List.mem_append_right _ List.mem_cons_self

/-- Whether a frame lasts depends only on the frames between it and `base`. -/
theorem lasts_congr {base : Option Nat} (P : Nat → Prop)
    (committed : ∀ f, P f → (t.Committed f ↔ u.Committed f))
    (called : ∀ f, P f → t.caller? f = u.caller? f)
    (closed : ∀ f q, P f → t.caller? f = some (some q) → base = some q ∨ P q) (f : Nat) (hf : P f) :
    t.lasts base f = u.lasts base f := by
  induction f using Nat.strongRecOn with
  | ind f ih =>
    rw [lasts, lasts, ← called f hf, decide_eq_decide.2 (committed f hf)]
    congr 1
    split
    · rfl
    · rfl
    · next q hq =>
      rcases closed f q hf hq with hbase | hP
      · rw [decide_eq_true hbase, Bool.true_or, Bool.true_or]
      · congr 1
        split
        · next hlt => exact ih q hlt hP
        · rfl

end Trail

/-! ## Segments -/

/-- The steps of a stretch of code in the frame `root`, which acts for `own`.  The
frames opened meanwhile are numbered from `lo` to `hi`. -/
structure Segment (root : Nat) (own : Address) (lo hi : Nat) (t : Trail) : Prop where
  le : lo ≤ hi
  opened : ∀ x ∈ t.filterMap Step.opening?, lo ≤ x.1 ∧ x.1 < hi ∧
    ∃ q, x.2 = some q ∧ q < x.1 ∧ (q = root ∨ lo ≤ q)
  committed : ∀ f ∈ t.filterMap Step.commit?, lo ≤ f ∧ f < hi
  undone : ∀ f ∈ t.filterMap Step.undoing?, lo ≤ f ∧ f < hi
  acts : ∀ x ∈ t.filterMap Step.actor?, x = (root, own) ∨ x ∈ t.filterMap Step.acting?
  acting : ∀ x ∈ t.filterMap Step.acting?, lo ≤ x.1 ∧ x.1 < hi
  apart : ∀ f, t.Committed f → ¬ t.Undone f

/-- Whether what a frame did outlives the segment, as far as the segment tells. -/
def Trail.keeps (t : Trail) (root f : Nat) : Bool := decide (f = root) || t.lasts (some root) f

/-- Whatever `what` tells of a frame is something the frame did. -/
def Step.Acted {α : Type} (what : Step → Option (Nat × α)) : Prop :=
  ∀ step x, what step = some x → ∃ a, step.actor? = some (x.1, a)

theorem Step.acted_emission : Step.Acted Step.emission? := fun step x h => by
  cases step <;> cases h
  exact ⟨_, rfl⟩

theorem Step.acted_destruction : Step.Acted Step.destruction? := fun step x h => by
  cases step <;> cases h
  exact ⟨_, rfl⟩

theorem Step.Acted.mem {α : Type} {what : Step → Option (Nat × α)} (acted : Step.Acted what)
    {t : Trail} {x : Nat × α} (hx : x ∈ t.filterMap what) :
    ∃ a, (x.1, a) ∈ t.filterMap Step.actor? := by
  obtain ⟨step, hstep, hwhat⟩ := List.mem_filterMap.1 hx
  obtain ⟨a, ha⟩ := acted step x hwhat
  exact ⟨a, List.mem_filterMap.2 ⟨step, hstep, ha⟩⟩

namespace Segment

variable {root lo mid hi : Nat} {own : Address} {t u : Trail}

theorem nil : Segment root own lo lo [] where
  le := Nat.le_refl _
  opened := fun _ h => nomatch h
  committed := fun _ h => nomatch h
  undone := fun _ h => nomatch h
  acts := fun _ h => nomatch h
  acting := fun _ h => nomatch h
  apart := fun _ h => nomatch h

/-- A frame of a later segment is none of an earlier one. -/
theorem append (ht : Segment root own lo mid t) (hu : Segment root own mid hi u) :
    Segment root own lo hi (u ++ t) where
  le := Nat.le_trans ht.le hu.le
  opened := fun x hx => by
    have hle := ht.le
    have hle' := hu.le
    rw [List.filterMap_append, List.mem_append] at hx
    rcases hx with hx | hx
    · obtain ⟨hlo, hhi, q, hq, hlt, hroot⟩ := hu.opened x hx
      exact ⟨by omega, hhi, q, hq, hlt, hroot.imp_right fun h => by omega⟩
    · obtain ⟨hlo, hhi, hq⟩ := ht.opened x hx
      exact ⟨hlo, by omega, hq⟩
  committed := fun f hf => by
    have hle := ht.le
    have hle' := hu.le
    rw [List.filterMap_append, List.mem_append] at hf
    rcases hf with hf | hf
    · have := hu.committed f hf
      omega
    · have := ht.committed f hf
      omega
  undone := fun f hf => by
    have hle := ht.le
    have hle' := hu.le
    rw [List.filterMap_append, List.mem_append] at hf
    rcases hf with hf | hf
    · have := hu.undone f hf
      omega
    · have := ht.undone f hf
      omega
  acts := fun x hx => by
    rw [List.filterMap_append, List.mem_append] at hx ⊢
    rcases hx with hx | hx
    · exact (hu.acts x hx).imp_right .inl
    · exact (ht.acts x hx).imp_right .inr
  acting := fun x hx => by
    have hle := ht.le
    have hle' := hu.le
    rw [List.filterMap_append, List.mem_append] at hx
    rcases hx with hx | hx
    · have := hu.acting x hx
      omega
    · have := ht.acting x hx
      omega
  apart := fun f hc hu' => by
    unfold Trail.Undone at hu'
    rw [List.filterMap_append, List.mem_append] at hu'
    rcases Trail.committed_append.1 hc with hc | hc <;> rcases hu' with hu' | hu'
    · exact hu.apart f hc hu'
    · have hlo := (hu.committed f hc).1
      have hhi := (ht.undone f hu').2
      omega
    · have hhi := (ht.committed f hc).2
      have hlo := (hu.undone f hu').1
      omega
    · exact ht.apart f hc hu'

theorem actor_range (h : Segment root own lo hi t) {x : Nat × Address}
    (hx : x ∈ t.filterMap Step.actor?) : x.1 = root ∨ lo ≤ x.1 ∧ x.1 < hi := by
  rcases h.acts x hx with rfl | hx
  · exact .inl rfl
  · exact .inr (h.acting x hx)

theorem did_range {α : Type} {what : Step → Option (Nat × α)} (h : Segment root own lo hi t)
    (acted : Step.Acted what) {x : Nat × α} (hx : x ∈ t.filterMap what) :
    x.1 = root ∨ lo ≤ x.1 ∧ x.1 < hi := by
  obtain ⟨a, ha⟩ := acted.mem hx
  exact h.actor_range ha

theorem caller?_of_not_range (h : Segment root own lo hi t) {f : Nat} (hf : ¬ (lo ≤ f ∧ f < hi)) :
    t.caller? f = none :=
  Trail.caller?_eq_none fun x hx he => by
    have hx' := h.opened x hx
    rw [he] at hx'
    exact hf ⟨hx'.1, hx'.2.1⟩

theorem not_committed_of_not_range (h : Segment root own lo hi t) {f : Nat}
    (hf : ¬ (lo ≤ f ∧ f < hi)) : ¬ t.Committed f := fun hc => hf (h.committed f hc)

theorem called (h : Segment root own lo hi t) {f q : Nat} (hq : t.caller? f = some (some q)) :
    q < f ∧ (q = root ∨ lo ≤ q) := by
  obtain ⟨-, -, q', hq', hlt⟩ := h.opened _ (Trail.mem_of_caller? hq)
  cases hq'
  exact hlt

variable (ht : Segment root own lo mid t) (hu : Segment root own mid hi u)

include ht hu

theorem keeps_append_left {f : Nat} (hf : f = root ∨ lo ≤ f ∧ f < mid) :
    (u ++ t).keeps root f = t.keeps root f := by
  rcases hf with rfl | hf
  · unfold Trail.keeps
    rw [decide_eq_true rfl, Bool.true_or, Bool.true_or]
  · unfold Trail.keeps
    congr 1
    have called : ∀ f, lo ≤ f ∧ f < mid → (u ++ t).caller? f = t.caller? f := fun f hf => by
      rw [Trail.caller?_append, hu.caller?_of_not_range (by omega)]
      rfl
    refine Trail.lasts_congr (fun f => lo ≤ f ∧ f < mid) (fun f hf => ?_) called
      (fun f q hf hq => ?_) f hf
    · rw [Trail.committed_append]
      exact or_iff_right (hu.not_committed_of_not_range (by omega))
    · rw [called f hf] at hq
      have hlt := ht.called hq
      rcases hlt with ⟨hlt, rfl | hlo⟩
      · exact .inl rfl
      · exact .inr ⟨hlo, by omega⟩

theorem keeps_append_right {f : Nat} (hf : f = root ∨ mid ≤ f ∧ f < hi) :
    (u ++ t).keeps root f = u.keeps root f := by
  rcases hf with rfl | hf
  · unfold Trail.keeps
    rw [decide_eq_true rfl, Bool.true_or, Bool.true_or]
  · unfold Trail.keeps
    congr 1
    have called : ∀ f, mid ≤ f ∧ f < hi → (u ++ t).caller? f = u.caller? f := fun f hf => by
      rw [Trail.caller?_append, ht.caller?_of_not_range (by omega), Option.or_none]
    refine Trail.lasts_congr (fun f => mid ≤ f ∧ f < hi) (fun f hf => ?_) called
      (fun f q hf hq => ?_) f hf
    · rw [Trail.committed_append]
      exact or_iff_left (ht.not_committed_of_not_range (by omega))
    · rw [called f hf] at hq
      have hlt := hu.called hq
      rcases hlt with ⟨hlt, rfl | hlo⟩
      · exact .inl rfl
      · exact .inr ⟨hlo, by omega⟩

/-- Two stretches of one frame keep what each of them keeps. -/
theorem did_append {α : Type} {what : Step → Option (Nat × α)} (acted : Step.Acted what) :
    (u ++ t).did what ((u ++ t).keeps root) =
      t.did what (t.keeps root) ++ u.did what (u.keeps root) := by
  rw [Trail.did_append, Trail.did_congr fun x hx => ht.keeps_append_left hu (ht.did_range acted hx),
    Trail.did_congr (t := u) fun x hx => ht.keeps_append_right hu (hu.did_range acted hx)]

end Segment

/-! ## Whole frames -/

/-- The steps that end the frame `c`. -/
structure Closing (c : Nat) (post : Trail) : Prop where
  opening : post.filterMap Step.opening? = []
  actor : post.filterMap Step.actor? = []
  acting : post.filterMap Step.acting? = []
  committed : ∀ f, post.Committed f → f = c
  undone : ∀ f, post.Undone f → f = c
  apart : ∀ f, post.Committed f → ¬ post.Undone f

namespace Closing

variable {root c hi : Nat} {own : Address} {post t : Trail} {p : Option Nat} {depth : Nat}
  {code : Address} {budget : Int}

/-- A whole frame: its opening, what ran in it, and its end. -/
def around (post t : Trail) (c : Nat) (p : Option Nat) (depth : Nat) (own code : Address)
    (budget : Int) : Trail := post ++ (t ++ [.opened c p depth own code budget])

theorem committed_around {f : Nat} :
    (around post t c p depth own code budget).Committed f ↔ post.Committed f ∨ t.Committed f := by
  unfold around
  rw [Trail.committed_append, Trail.committed_append]
  exact or_congr_right (or_iff_left fun h => nomatch h)

theorem undone_around {f : Nat} (h : (around post t c p depth own code budget).Undone f) :
    post.Undone f ∨ t.Undone f := by
  unfold Trail.Undone around at h
  rw [List.filterMap_append, List.mem_append, List.filterMap_append, List.mem_append] at h
  exact h.imp_right fun h => h.elim id fun h => nomatch h

variable (closing : Closing c post) (ht : Segment c own (c + 1) hi t)

include closing

theorem mem_acting_around {x : Nat × Address} :
    x ∈ (around post t c p depth own code budget).filterMap Step.acting? ↔
      x ∈ t.filterMap Step.acting? ∨ x = (c, own) := by
  rw [around, List.filterMap_append, closing.acting, List.nil_append, List.filterMap_append,
    List.mem_append]
  exact or_congr_right List.mem_singleton

include ht

theorem acts_around : ∀ x ∈ (around post t c p depth own code budget).filterMap Step.actor?,
    x ∈ (around post t c p depth own code budget).filterMap Step.acting? := by
  intro x hx
  rw [around, List.filterMap_append, closing.actor, List.nil_append, List.filterMap_append,
    List.mem_append] at hx
  rcases hx with hx | hx
  · rw [closing.mem_acting_around]
    exact (ht.acts x hx).symm
  · cases hx

theorem apart_around (f : Nat) (hc : (around post t c p depth own code budget).Committed f) :
    ¬ (around post t c p depth own code budget).Undone f := by
  intro hu
  rcases committed_around.1 hc with hc | hc <;> rcases undone_around hu with hu | hu
  · exact closing.apart f hc hu
  · have heq := closing.committed f hc
    have hlo := (ht.undone f hu).1
    omega
  · have heq := closing.undone f hu
    have hlo := (ht.committed f hc).1
    omega
  · exact ht.apart f hc hu

theorem caller?_around {f : Nat} : (around post t c p depth own code budget).caller? f =
    if f = c then some p else t.caller? f := by
  have hpost : post.caller? f = none := Trail.caller?_eq_none fun x hx => by
    rw [closing.opening] at hx
    cases hx
  unfold around
  rw [Trail.caller?_append, hpost, Option.none_or, Trail.caller?_append]
  show (t.caller? f).or (List.lookup f [(c, p)]) = _
  by_cases hf : f = c
  · rw [if_pos hf, ht.caller?_of_not_range (by omega), hf, List.lookup_cons_self]
    rfl
  · rw [if_neg hf, List.lookup_cons, beq_eq_false_iff_ne.2 hf]
    exact Option.or_none

/-- What a frame and its callees did lasts as long as it would in the frame, if
the frame itself commits. -/
theorem lasts_around (hp : ∀ q, p = some q → q < c) {f : Nat} (hf : f = c ∨ c + 1 ≤ f ∧ f < hi) :
    (around post t c p depth own code budget).lasts p f =
      (t.keeps c f && decide (post.Committed c)) := by
  have hself : (around post t c p depth own code budget).lasts p c =
      decide (post.Committed c) := by
    rw [Trail.lasts, closing.caller?_around ht, if_pos rfl, decide_eq_decide.2 (committed_around.trans
      (or_iff_left (ht.not_committed_of_not_range (by omega))))]
    split
    · next h => cases h
    · next h => rw [Option.some.inj h, decide_eq_true rfl, Bool.and_true]
    · next q h => rw [Option.some.inj h, decide_eq_true rfl, Bool.true_or, Bool.and_true]
  induction f using Nat.strongRecOn with
  | ind f ih =>
    rcases hf with rfl | hf
    · rw [hself, Trail.keeps, decide_eq_true rfl, Bool.true_or, Bool.true_and]
    · have hne : f ≠ c := by omega
      have hcommitted : (around post t c p depth own code budget).Committed f ↔ t.Committed f :=
        committed_around.trans (or_iff_right fun h => hne (closing.committed f h))
      rw [Trail.lasts, closing.caller?_around ht, if_neg hne, decide_eq_decide.2 hcommitted,
        Trail.keeps, decide_eq_false hne, Bool.false_or, Trail.lasts, Bool.and_assoc]
      congr 1
      cases hcaller : t.caller? f with
      | none => rfl
      | some q =>
        obtain ⟨-, -, q, rfl, hlt, hq⟩ := ht.opened _ (Trail.mem_of_caller? hcaller)
        have hbase : p ≠ some q := fun h => by
          have := hp q h
          omega
        have hstep := ih q hlt (by simp only at hlt; omega)
        simp only
        rw [if_pos hlt, if_pos hlt, hstep, decide_eq_false hbase, Bool.false_or, Trail.keeps]
        congr 2
        exact decide_eq_decide.2 ⟨fun h => congrArg some h.symm, fun h => by cases h; rfl⟩

/-- A whole frame leaves what ran in it, or nothing if it did not commit. -/
theorem did_around {α : Type} {what : Step → Option (Nat × α)} (acted : Step.Acted what)
    (hp : ∀ q, p = some q → q < c) :
    (around post t c p depth own code budget).did what
      ((around post t c p depth own code budget).lasts p) =
      if post.Committed c then t.did what (t.keeps c) else [] := by
  have hpost : post.filterMap what = [] := by
    rw [List.eq_nil_iff_forall_not_mem]
    intro x hx
    obtain ⟨a, ha⟩ := acted.mem hx
    rw [closing.actor] at ha
    cases ha
  have hopen : List.filterMap what [Step.opened c p depth own code budget] = [] := by
    rw [List.eq_nil_iff_forall_not_mem]
    intro x hx
    obtain ⟨a, ha⟩ := acted.mem hx
    cases ha
  have hnil : ∀ keep, Trail.did post what keep = [] := fun keep =>
    Trail.did_eq_nil fun x hx => by rw [hpost] at hx; cases hx
  have hnil' : ∀ keep, Trail.did [.opened c p depth own code budget] what keep = [] := fun keep =>
    Trail.did_eq_nil fun x hx => by rw [hopen] at hx; cases hx
  rw [around, Trail.did_append, Trail.did_append, hnil, hnil', List.nil_append, List.append_nil]
  split
  · next hc =>
    refine Trail.did_congr fun x hx => ?_
    rw [← around, closing.lasts_around ht hp (ht.did_range acted hx), decide_eq_true hc,
      Bool.and_true]
  · next hc =>
    refine Trail.did_eq_nil fun x hx => ?_
    rw [← around, closing.lasts_around ht hp (ht.did_range acted hx), decide_eq_false hc,
      Bool.and_false]

end Closing

theorem Segment.around {root c hi depth : Nat} {own own' code : Address} {budget : Int}
    {post t : Trail} (closing : Closing c post) (ht : Segment c own' (c + 1) hi t)
    (hroot : root < c) :
    Segment root own c hi (Closing.around post t c (some root) depth own' code budget) := by
  have hle := ht.le
  have mem_opening : ∀ x ∈ (Closing.around post t c (some root) depth own' code budget).filterMap
      Step.opening?, x ∈ t.filterMap Step.opening? ∨ x = (c, some root) := fun x hx => by
    rw [Closing.around, List.filterMap_append, closing.opening, List.nil_append,
      List.filterMap_append, List.mem_append] at hx
    exact hx.imp_right List.mem_singleton.1
  constructor
  case le => omega
  case opened =>
    intro x hx
    rcases mem_opening x hx with hx | rfl
    · obtain ⟨hlo, hhi, q, hq, hlt, hcase⟩ := ht.opened x hx
      exact ⟨by omega, hhi, q, hq, hlt, .inr (by omega)⟩
    · exact ⟨Nat.le_refl _, by simp only; omega, root, rfl, hroot, .inl rfl⟩
  case committed =>
    intro f hf
    rcases Closing.committed_around.1 hf with hf | hf
    · have := closing.committed f hf
      omega
    · have := ht.committed f hf
      omega
  case undone =>
    intro f hf
    rcases Closing.undone_around hf with hf | hf
    · have := closing.undone f hf
      omega
    · have := ht.undone f hf
      omega
  case acts => exact fun x hx => .inr (closing.acts_around ht x hx)
  case acting =>
    intro x hx
    rcases closing.mem_acting_around.1 hx with hx | rfl
    · have := ht.acting x hx
      omega
    · exact ⟨Nat.le_refl _, by simp only; omega⟩
  case apart => exact closing.apart_around ht

theorem Closing.did_keeps {α : Type} {what : Step → Option (Nat × α)} (acted : Step.Acted what)
    {root c hi depth : Nat} {own code : Address} {budget : Int} {post t : Trail}
    (closing : Closing c post) (ht : Segment c own (c + 1) hi t) (hroot : root < c) :
    (around post t c (some root) depth own code budget).did what
      ((around post t c (some root) depth own code budget).keeps root) =
      if post.Committed c then t.did what (t.keeps c) else [] := by
  rw [← closing.did_around ht acted (p := some root) fun q hq => by cases hq; exact hroot]
  refine Trail.did_congr fun x hx => ?_
  have hne : x.1 ≠ root := by
    obtain ⟨a, ha⟩ := acted.mem hx
    rw [around, List.filterMap_append, closing.actor, List.nil_append, List.filterMap_append,
      List.mem_append] at ha
    rcases ha with ha | ha
    · have hrange := ht.actor_range ha
      simp only at hrange
      omega
    · cases ha
  rw [Trail.keeps, decide_eq_false hne, Bool.false_or]

end ContractVM
