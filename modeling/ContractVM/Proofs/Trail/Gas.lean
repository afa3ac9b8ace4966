/-
The gas of frames, read off a trail.

At each of its boundaries a frame tells what it has left.  `Metered` says of a
stretch of the trail, in which one frame runs and its callees run inside it, that
what a frame tells never goes up and stays within its budget.  The frame that runs
was opened before the stretch, so it is held against what it had at first; the
others were opened in it, each once, under numbers of their own.
-/
import ContractVM.Proofs.Trail.Lasting

namespace ContractVM

namespace Step

def boundary? : Step → Option (Nat × Int)
  | boundary f left => some (f, left)
  | _ => none

def budget? : Step → Option (Nat × Int)
  | opened f _ _ _ _ budget => some (f, budget)
  | _ => none

/-- Nothing is told of gas at a boundary, and no frame is opened. -/
structure Mute (step : Step) : Prop where
  boundary : step.boundary? = none
  budget : step.budget? = none

end Step

/-- Gas that goes down, from `top` at most, and never below zero. -/
structure Falling (top : Int) (l : List Int) : Prop where
  falls : l.Pairwise (· ≥ ·)
  within : ∀ n ∈ l, 0 ≤ n ∧ n ≤ top

namespace Falling

variable {top low : Int} {l l' : List Int}

theorem nil (top : Int) : Falling top [] := ⟨.nil, fun _ h => nomatch h⟩

theorem single {n : Int} (h : 0 ≤ n) : Falling n [n] where
  falls := List.pairwise_singleton _ _
  within := fun m hm => by rw [List.mem_singleton.1 hm]; exact ⟨h, Int.le_refl _⟩

theorem append (h : Falling top l) (h' : Falling low l') (above : ∀ n ∈ l, low ≤ n)
    (hlow : low ≤ top) : Falling top (l ++ l') where
  falls := List.pairwise_append.2
    ⟨h.falls, h'.falls, fun n hn m hm => Int.le_trans (h'.within m hm).2 (above n hn)⟩
  within := fun n hn => (List.mem_append.1 hn).elim (h.within n) fun hn' =>
    ⟨(h'.within n hn').1, Int.le_trans (h'.within n hn').2 hlow⟩

end Falling

namespace Trail

/-- What the frame `f` had left at its boundaries, in the order in which it came to them. -/
def lefts (t : Trail) (f : Nat) : List Int := t.did Step.boundary? fun g => decide (g = f)

/-- The budgets with which a frame of the number `f` was opened. -/
def budgets (t : Trail) (f : Nat) : List Int := t.did Step.budget? fun g => decide (g = f)

/-- The frame `f` was opened once, and what it has left goes down from its budget. -/
def Falls (t : Trail) (f : Nat) : Prop := ∃ b, t.budgets f = [b] ∧ Falling b (t.lefts f)

/-- Nothing is told of the frame `f`. -/
structure Untold (t : Trail) (f : Nat) : Prop where
  lefts : t.lefts f = []
  budgets : t.budgets f = []

variable {t u : Trail} {f i lo mid hi : Nat} {top low : Int}

theorem lefts_append : (u ++ t).lefts f = t.lefts f ++ u.lefts f := did_append

theorem budgets_append : (u ++ t).budgets f = t.budgets f ++ u.budgets f := did_append

theorem lefts_boundary (f : Nat) (n : Int) : lefts [.boundary f n] f = [n] := by
  simp [lefts, did, Step.boundary?]

theorem Untold.of_mute (h : ∀ step ∈ t, step.Mute) (f : Nat) : t.Untold f where
  lefts := did_eq_nil fun x hx => by
    obtain ⟨step, hstep, hsome⟩ := List.mem_filterMap.1 hx
    rw [(h step hstep).boundary] at hsome
    cases hsome
  budgets := did_eq_nil fun x hx => by
    obtain ⟨step, hstep, hsome⟩ := List.mem_filterMap.1 hx
    rw [(h step hstep).budget] at hsome
    cases hsome

theorem Untold.append (h : t.Untold f) (h' : u.Untold f) : (u ++ t).Untold f where
  lefts := by rw [lefts_append, h.lefts, h'.lefts]; rfl
  budgets := by rw [budgets_append, h.budgets, h'.budgets]; rfl

theorem Falls.append_untold (h : t.Falls f) (h' : u.Untold f) : (u ++ t).Falls f := by
  obtain ⟨b, hb, hfalling⟩ := h
  refine ⟨b, ?_, ?_⟩
  · rw [budgets_append, hb, h'.budgets]
    rfl
  · rw [lefts_append, h'.lefts, List.append_nil]
    exact hfalling

theorem Untold.append_falls (h : t.Untold f) (h' : u.Falls f) : (u ++ t).Falls f := by
  obtain ⟨b, hb, hfalling⟩ := h'
  refine ⟨b, ?_, ?_⟩
  · rw [budgets_append, h.budgets]
    exact hb
  · rw [lefts_append, h.lefts]
    exact hfalling

/-- The stretch `t` in which the frame `i` runs, which has `top` gas at first, and in which the
frames from `lo` to `hi` are opened. -/
structure Metered (t : Trail) (i lo hi : Nat) (top : Int) : Prop where
  le : lo ≤ hi
  own : Falling top (t.lefts i)
  unopened : t.budgets i = []
  others : ∀ f, f ≠ i → t.Untold f ∨ lo ≤ f ∧ f < hi ∧ t.Falls f

namespace Metered

theorem of_mute (h : ∀ step ∈ t, step.Mute) (i lo : Nat) (top : Int) : t.Metered i lo lo top where
  le := Nat.le_refl lo
  own := by rw [(Untold.of_mute h i).lefts]; exact .nil top
  unopened := (Untold.of_mute h i).budgets
  others := fun f _ => .inl (.of_mute h f)

theorem boundary (i lo : Nat) (h : 0 ≤ top) : Metered [.boundary i top] i lo lo top where
  le := Nat.le_refl lo
  own := by
    rw [lefts_boundary]
    exact .single h
  unopened := rfl
  others := fun f hf => .inl
    { lefts := by
        have hne : i ≠ f := fun h => hf h.symm
        simp [lefts, did, Step.boundary?, hne]
      budgets := rfl }

theorem append_mute (h : t.Metered i lo hi top) (mute : ∀ step ∈ u, step.Mute) :
    (u ++ t).Metered i lo hi top where
  le := h.le
  own := by
    rw [lefts_append, (Untold.of_mute mute i).lefts, List.append_nil]
    exact h.own
  unopened := by
    rw [budgets_append, (Untold.of_mute mute i).budgets, h.unopened]
    rfl
  others := fun f hf => (h.others f hf).imp (fun untold => untold.append (.of_mute mute f))
    fun ⟨hlo, hhi, falls⟩ => ⟨hlo, hhi, falls.append_untold (.of_mute mute f)⟩

theorem append (h : t.Metered i lo mid top) (h' : u.Metered i mid hi low)
    (above : ∀ n ∈ t.lefts i, low ≤ n) (hlow : low ≤ top) : (u ++ t).Metered i lo hi top where
  le := Nat.le_trans h.le h'.le
  own := by
    rw [lefts_append]
    exact h.own.append h'.own above hlow
  unopened := by
    rw [budgets_append, h.unopened, h'.unopened]
    rfl
  others := by
    intro f hf
    have hle := h.le
    have hle' := h'.le
    rcases h.others f hf with untold | ⟨hlo, hmid, falls⟩
    · rcases h'.others f hf with untold' | ⟨hmid, hhi, falls'⟩
      · exact .inl (untold.append untold')
      · exact .inr ⟨by omega, hhi, untold.append_falls falls'⟩
    · rcases h'.others f hf with untold' | ⟨hmid', -, -⟩
      · exact .inr ⟨hlo, by omega, falls.append_untold untold'⟩
      · omega

section Around

variable {j : Nat} {p : Option Nat} {depth : Nat} {own code : Address} {budget : Int} {post : Trail}

/-- A frame from its opening to its end. -/
theorem enclosed (h : t.Metered j (j + 1) hi budget) (mute : ∀ step ∈ post, step.Mute) (f : Nat) :
    (Closing.around post t j p depth own code budget).Untold f ∨
      j ≤ f ∧ f < hi ∧ (Closing.around post t j p depth own code budget).Falls f := by
  unfold Closing.around
  have hle := h.le
  by_cases hf : f = j
  · subst hf
    have hbudgets : budgets [.opened f p depth own code budget] f = [budget] := by
      simp [budgets, did, Step.budget?]
    have hlefts : lefts [.opened f p depth own code budget] f = [] := rfl
    have falls : Falls (t ++ [.opened f p depth own code budget]) f := by
      refine ⟨budget, ?_, ?_⟩
      · rw [budgets_append, hbudgets, h.unopened]
        rfl
      · rw [lefts_append, hlefts]
        exact h.own
    exact .inr ⟨Nat.le_refl _, hle, falls.append_untold (.of_mute mute _)⟩
  · have hopened : Untold [.opened j p depth own code budget] f := by
      have hne : j ≠ f := fun h => hf h.symm
      exact ⟨rfl, by simp [budgets, did, Step.budget?, hne]⟩
    rcases h.others f hf with untold | ⟨hlo, hhi, falls⟩
    · exact .inl ((hopened.append untold).append (.of_mute mute f))
    · exact .inr ⟨by omega, hhi, (hopened.append_falls falls).append_untold (.of_mute mute f)⟩

/-- A callee, of which its caller `i` tells nothing. -/
theorem around (h : t.Metered j (j + 1) hi budget) (mute : ∀ step ∈ post, step.Mute) (hij : i < j)
    (top : Int) : (Closing.around post t j p depth own code budget).Metered i j hi top ∧
      (Closing.around post t j p depth own code budget).lefts i = [] := by
  have hle := h.le
  have untold : (Closing.around post t j p depth own code budget).Untold i := by
    rcases h.enclosed mute i with untold | ⟨hge, -, -⟩
    · exact untold
    · omega
  refine ⟨⟨by omega, ?_, untold.budgets, fun f _ => h.enclosed mute f⟩, untold.lefts⟩
  rw [untold.lefts]
  exact .nil top

end Around

end Metered
end Trail
end ContractVM
