/-
The heights of blocks.

A tick takes the height that follows that of the last block when it is called, and the chain
takes it over when the block is sealed.  So the heights of the blocks, in the order in which
they are sealed, never fall and never skip one, but ticks that are called while another is not
settled share one (`heights_climb`, `heights_shared`).  They are one, two, three and so on if
nobody calls a tick before the last one is settled (`Patient`).
-/
import ContractVM.Proofs.Chain.Order
import ContractVM.Proofs.Machine.Unsigned
import Mathlib.Data.List.Chain

namespace ContractVM
namespace Chain

variable {c c' : Chain} {m : Machine} {moves : List Move} {mv : Move}

def heights (c : Chain) : List Nat := c.blocks.map Block.height

/-- The heights of ticks that are not settled, in the order of the calls. -/
def outstanding (c : Chain) : List Nat :=
  c.sealing.map (fun p => p.2.height) ++ c.jobs.tasks.filterMap fun p => p.2.height?

/-- No tick is called while another is not settled. -/
def Patient (c : Chain) : List Move → Prop
  | [] => True
  | mv :: rest => (mv.isTick = true → c.outstanding = []) ∧ Patient (c.move mv) rest

instance decidablePatient : (c : Chain) → (moves : List Move) → Decidable (c.Patient moves)
  | _, [] => .isTrue trivial
  | c, mv :: rest =>
    have := decidablePatient (c.move mv) rest
    inferInstanceAs (Decidable ((mv.isTick = true → c.outstanding = []) ∧ Patient (c.move mv) rest))

/-! ## One move -/

/-- What a move does to the heights: a tick asks for the next one, a block that is sealed makes
the oldest one that was asked for the height of the chain, and no other move does more than
forget one. -/
inductive Rises (c : Chain) (mv : Move) (c' : Chain) : Prop
  | same (blocks : c'.blocks = c.blocks) (height : c'.height = c.height)
      (outstanding : c'.outstanding.Sublist c.outstanding)
  | asked (tick : mv.isTick = true) (blocks : c'.blocks = c.blocks) (height : c'.height = c.height)
      (outstanding : c'.outstanding = c.outstanding ++ [c.height + 1])
  | sealed (b : Block) (blocks : c'.blocks = c.blocks ++ [b]) (height : c'.height = b.height)
      (outstanding : c.outstanding = b.height :: c'.outstanding)

theorem rises_request (h : ∃ ran, c.jobs.InTurn ran) (job : Job) :
    ({ c with jobs := (c.jobs.request job).2 } : Chain).outstanding =
      c.outstanding ++ job.height?.toList := by
  obtain ⟨ran, h⟩ := h
  unfold outstanding
  rw [h.tasks, List.filterMap_append, List.append_assoc]
  cases hheight : job.height? <;> simp [hheight]

theorem rises_move (h : ∃ ran, c.jobs.InTurn ran) (mv : Move) : Rises c mv (c.move mv) := by
  cases mv with
  | submit tx | host op => exact .same rfl rfl (.refl _)
  | execute tx =>
    refine .same rfl rfl ?_
    have hrequest := rises_request h (.single tx)
    exact (hrequest.trans (List.append_nil _)) ▸ .refl _
  | tick now =>
    unfold move tick
    simp only
    cases now.toInt? with
    | none => exact .same rfl rfl (.refl _)
    | some timestamp =>
      exact .asked rfl rfl rfl (rises_request h (.block c.queue (c.height + 1) timestamp))
  | run =>
    obtain ⟨ran, h⟩ := h
    rcases runNext_cases h with ⟨-, hsame⟩ | ⟨job, rest, htasks, runs, hrest, -⟩
    · rw [move, hsame]
      exact .same rfl rfl (.refl _)
    · rw [move]
      have hwas : c.outstanding = c.sealing.map (fun p => p.2.height) ++
          (job.height?.toList ++ rest.filterMap fun p => p.2.height?) := by
        unfold outstanding
        rw [htasks]
        cases hheight : job.height? <;> simp [hheight]
      rcases runs.answered with ⟨b, hb, hanswers, hsealing⟩ | ⟨hnone, hanswers, hsealing⟩
      · refine .same (by rw [blocks, hanswers, blocks]) runs.height ?_
        obtain ⟨batch, root, rfl, -⟩ := Job.answer_eq_block hb
        rw [hwas, outstanding, hrest, hsealing]
        simp [Job.height?]
      · refine .same (by simp [blocks, hanswers, hnone]) runs.height ?_
        rw [hwas, outstanding, hrest, hsealing]
        exact (List.sublist_append_right ..).append_left _
  | finish =>
    rw [move]
    rcases c.finish_cases with ⟨-, hsame⟩ | ⟨t, b, rest, step, hsealing, hfinish⟩
    · rw [hsame]
      exact .same rfl rfl (.refl _)
    · rw [hfinish]
      refine .sealed b ?_ rfl ?_
      · simp [blocks, Answer.block?]
      · simp [outstanding, hsealing]

/-! ## Every schedule -/

/-- The heights so far climb from nothing to that of the chain, and those that are asked for
follow in their order. -/
structure Climbing (c : Chain) : Prop where
  climb : (0 :: c.heights).IsChain fun a b => b = a ∨ b = a + 1
  positive : ∀ h ∈ c.heights, 0 < h
  height : c.height = c.heights.getLastD 0
  outstanding : ∀ h ∈ c.outstanding, 0 < h ∧ (h = c.height ∨ h = c.height + 1)
  sorted : c.outstanding.Pairwise (· ≤ ·)

theorem climbing_on (m : Machine) : (on m).Climbing where
  climb := .singleton 0
  positive := fun _ h => (nomatch h)
  height := rfl
  outstanding := fun _ h => (nomatch h)
  sorted := .nil

theorem Climbing.rises (h : c.Climbing) (rises : Rises c mv c') : c'.Climbing := by
  cases rises with
  | same blocks height outstanding =>
    have hheights : c'.heights = c.heights := congrArg (List.map Block.height) blocks
    refine ⟨hheights ▸ h.climb, hheights ▸ h.positive, ?_, ?_, h.sorted.sublist outstanding⟩
    · rw [height, hheights]
      exact h.height
    · rw [height]
      exact fun k hk => h.outstanding k (outstanding.subset hk)
  | asked tick blocks height outstanding =>
    have hheights : c'.heights = c.heights := congrArg (List.map Block.height) blocks
    refine ⟨hheights ▸ h.climb, hheights ▸ h.positive, ?_, ?_, ?_⟩
    · rw [height, hheights]
      exact h.height
    · rw [height, outstanding]
      intro k hk
      rcases List.mem_append.1 hk with hk | hk
      · exact h.outstanding k hk
      · rw [List.mem_singleton.1 hk]
        omega
    · rw [outstanding, List.pairwise_append]
      refine ⟨h.sorted, List.pairwise_singleton .., fun a ha b hb => ?_⟩
      have hbound := (h.outstanding a ha).2
      rw [List.mem_singleton.1 hb]
      omega
  | sealed b blocks height outstanding =>
    have hheights : c'.heights = c.heights ++ [b.height] := by
      rw [heights, blocks, List.map_append]
      rfl
    have hfirst := h.outstanding b.height (by rw [outstanding]; exact List.mem_cons_self)
    have hsorted := h.sorted
    rw [outstanding, List.pairwise_cons] at hsorted
    refine ⟨?_, ?_, ?_, ?_, hsorted.2⟩
    · rw [hheights, ← List.cons_append, List.isChain_append]
      refine ⟨h.climb, .singleton _, fun x hx y hy => ?_⟩
      have hlast := h.height
      rw [List.getLastD_eq_getLast?] at hlast
      rw [List.getLast?_cons, Option.mem_some_iff, ← hlast] at hx
      rw [List.head?_cons, Option.mem_some_iff] at hy
      rw [← hx, ← hy]
      exact hfirst.2
    · rw [hheights]
      intro k hk
      rcases List.mem_append.1 hk with hk | hk
      · exact h.positive k hk
      · rw [List.mem_singleton.1 hk]
        exact hfirst.1
    · rw [hheights, height, List.getLastD_concat]
    · rw [height]
      intro k hk
      -- The heights that are left are not below this one, nor above the next.
      have hbound := h.outstanding k (by rw [outstanding]; exact List.mem_cons_of_mem _ hk)
      have hle := hsorted.1 k hk
      omega

theorem climbing_play (m : Machine) (moves : List Move) : ((on m).play moves).Climbing := by
  induction moves using List.reverseRecOn with
  | nil => exact climbing_on m
  | append_singleton moves mv ih =>
    rw [play_concat]
    exact ih.rises (rises_move (inTurn_play m moves) mv)

/-! ## Patient schedules -/

/-- The heights are the first ones, and at most the next one is asked for. -/
structure Exact (c : Chain) : Prop where
  heights : c.heights = List.range' 1 c.blocks.length
  height : c.height = c.blocks.length
  outstanding : c.outstanding.Sublist [c.height + 1]

theorem Exact.rises (h : c.Exact) (rises : Rises c mv c')
    (patient : mv.isTick = true → c.outstanding = []) : c'.Exact := by
  cases rises with
  | same blocks height outstanding =>
    have hheights : c'.heights = c.heights := congrArg (List.map Block.height) blocks
    refine ⟨?_, ?_, ?_⟩
    · rw [hheights, blocks]
      exact h.heights
    · rw [height, blocks]
      exact h.height
    · rw [height]
      exact outstanding.trans h.outstanding
  | asked tick blocks height outstanding =>
    have hheights : c'.heights = c.heights := congrArg (List.map Block.height) blocks
    refine ⟨?_, ?_, ?_⟩
    · rw [hheights, blocks]
      exact h.heights
    · rw [height, blocks]
      exact h.height
    · rw [outstanding, patient tick, height]
      exact .refl _
  | sealed b blocks height outstanding =>
    have honly := h.outstanding
    rw [outstanding] at honly
    have hb : b.height = c.height + 1 ∧ c'.outstanding = [] := by
      have heq := honly.eq_of_length_le (by simp)
      exact List.cons.inj heq
    refine ⟨?_, ?_, ?_⟩
    · rw [Chain.heights, blocks, List.map_append, List.length_append, List.length_singleton,
        List.range'_concat, ← h.heights, List.map_singleton, hb.1, h.height]
      congr 2
      omega
    · rw [height, blocks, List.length_append, List.length_singleton, ← h.height]
      exact hb.1
    · rw [hb.2]
      exact List.nil_sublist _

theorem exact_play (h : c.Exact) (turn : ∀ moves, ∃ ran, (c.play moves).jobs.InTurn ran)
    (patient : c.Patient moves) : (c.play moves).Exact := by
  induction moves generalizing c with
  | nil => exact h
  | cons mv rest ih =>
    exact ih (h.rises (rises_move (turn []) mv) patient.1) (fun moves => turn (mv :: moves)) patient.2

theorem patient_exact (m : Machine) {moves : List Move} (patient : (on m).Patient moves) :
    ((on m).play moves).Exact := by
  refine exact_play ⟨rfl, rfl, List.nil_sublist _⟩ (fun moves => inTurn_play m moves) patient

/-! ## The block that transactions see -/

theorem block_perform (m : Machine) (batch : List (Nat × Transaction)) :
    (m.perform (batch.map fun q => q.2.operation)).block = m.block := by
  induction batch generalizing m with
  | nil => rfl
  | cons q rest ih =>
    have hstep : (q.2.operation.after m).block = m.block := by
      rw [q.2.operation.block_after]
      cases q.2 <;> rfl
    exact (ih _).trans hstep

/-- The transactions of a block ran one after the other from `m`, and all the while the block of
the machine had the height and the time of that one. -/
structure RunsOn (b : Block) (m : Machine) (batch : List (Nat × Transaction)) : Prop where
  receipts : b.receipts = (settlements m batch).filterMap fun s => s.2.toOption
  context : ∀ n, (m.perform ((batch.take n).map fun q => q.2.operation)).block =
    ⟨b.timestamp, b.height⟩

theorem blocks_runOn (m : Machine) (moves : List Move) {b : Block}
    (h : b ∈ ((on m).play moves).blocks) : ∃ batch m',
      .block batch b.height b.timestamp ∈ (on m).requests moves ∧ RunsOn b m' batch := by
  obtain ⟨deeds, tracked⟩ := tracks m moves
  have hblock : b ∈ (serial m deeds).answers.filterMap Answer.block? :=
    tracked.blocks ▸ List.mem_append_left _ h
  obtain ⟨a, ha, hb⟩ := List.mem_filterMap.1 hblock
  obtain ⟨t, ht⟩ := List.mem_iff_getElem?.1 ha
  have hlength := (List.getElem?_eq_some_iff.1 ht).1
  rw [length_answers] at hlength
  obtain ⟨m', -, hanswer, -⟩ := serial_ran (m := m) (List.getElem?_eq_getElem hlength)
  have hjob : (deeds.filterMap Deed.job?)[t].answer m' = .ok (.block b) := by
    rw [← Option.some.inj (ht.symm.trans hanswer)]
    exact Answer.block?_eq_some.1 hb
  obtain ⟨batch, root, hasked, hsealed⟩ := Job.answer_eq_block hjob
  refine ⟨batch, { m' with block := ⟨b.timestamp, b.height⟩ }, ?_, ?_, fun n => block_perform _ _⟩
  · rw [tracked.jobs, ← hasked]
    exact List.mem_append_left _ (List.getElem_mem _)
  · rw [hasked] at hsealed
    exact congrArg Block.receipts hsealed

/-! ## The heights of blocks -/

/-- The first block has height one, each other the height of the one before it or the next, and
the chain that of the last.  What the transactions of a block see is its own height.  If no tick
is called while another is not settled, the heights are one, two, three and so on. -/
theorem heights_climb (m : Machine) (moves : List Move) :
    ((on m).play moves).heights.IsChain (fun a b => b = a ∨ b = a + 1) ∧
      (∀ h ∈ ((on m).play moves).heights.head?, h = 1) ∧
      ((on m).play moves).height = ((on m).play moves).heights.getLastD 0 ∧
      (∀ b ∈ ((on m).play moves).blocks, ∃ batch m',
        .block batch b.height b.timestamp ∈ (on m).requests moves ∧ RunsOn b m' batch) ∧
      ((on m).Patient moves →
        ((on m).play moves).heights = List.range' 1 ((on m).play moves).blocks.length ∧
          ((on m).play moves).height = ((on m).play moves).blocks.length) := by
  have climbing := climbing_play m moves
  refine ⟨climbing.climb.tail, ?_, climbing.height, fun b hb => blocks_runOn m moves hb,
    fun patient => ⟨(patient_exact m patient).heights, (patient_exact m patient).height⟩⟩
  have hclimb := climbing.climb
  have hpositive := climbing.positive
  cases hheights : ((on m).play moves).heights with
  | nil => exact fun _ h => (nomatch h)
  | cons first rest =>
    rw [hheights, List.isChain_cons_cons] at hclimb
    have hfirst := hpositive first (by rw [hheights]; exact List.mem_cons_self)
    intro h hh
    rw [List.head?_cons, Option.mem_some_iff] at hh
    omega

example : (start .standard).Patient
    [.tick (.ofNat 1), .run, .finish, .tick (.ofNat 2), .run, .finish] := by
  decide +kernel

/-- Two ticks, the second of which is called before the first has run. -/
theorem heights_shared :
    ((start .standard).play [.tick (.ofNat 1), .tick (.ofNat 2)]).drain.heights = [1, 1] ∧
      ((start .standard).play [.tick (.ofNat 1), .tick (.ofNat 2)]).drain.height = 1 := by
  decide +kernel

end Chain
end ContractVM
