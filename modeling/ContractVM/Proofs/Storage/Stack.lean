/-
The stack of open layers.  Whatever is written while a layer is open goes to the
topmost one: `s.Above t` says that `t` is `s` with another topmost layer.  From
there a rollback of a layer that was opened on `s` gives back `s` itself, and a
commit of it stays above `s`.
-/
import ContractVM.Storage.Basic

namespace ContractVM
namespace Storage

/-- `t` is `s` with another topmost layer. -/
def Above (s t : Storage) : Prop := ∃ top, t = ⟨s.persisted, top :: s.layers.tail⟩

theorem Above.refl {s : Storage} (h : s.layers ≠ []) : s.Above s := by
  obtain ⟨p, ls⟩ := s
  cases ls with
  | nil => exact absurd rfl h
  | cons top below => exact ⟨top, rfl⟩

theorem Above.trans {s t u : Storage} (hst : s.Above t) (htu : t.Above u) : s.Above u := by
  obtain ⟨top, rfl⟩ := hst
  exact htu

theorem Above.layers_ne {s t : Storage} (h : s.Above t) : t.layers ≠ [] := by
  obtain ⟨top, rfl⟩ := h
  exact List.cons_ne_nil _ _

theorem Above.persisted {s t : Storage} (h : s.Above t) : t.persisted = s.persisted := by
  obtain ⟨top, rfl⟩ := h
  rfl

theorem Above.depth {s t : Storage} (hs : s.layers ≠ []) (h : s.Above t) : t.depth = s.depth := by
  obtain ⟨top, rfl⟩ := h
  obtain ⟨p, ls⟩ := s
  cases ls with
  | nil => exact absurd rfl hs
  | cons top' below => rfl

/-! ## Writing -/

theorem updateTop_eq_error {s : Storage} {f : Layer → Layer} {m : Misuse}
    (h : s.updateTop f = .error m) : s.layers = [] := by
  unfold updateTop at h
  split at h
  · assumption
  · cases h

/-- The topmost layer is changed, and those below it are left as they are. -/
theorem updateTop_eq_ok {s t : Storage} {f : Layer → Layer} (h : s.updateTop f = .ok t) :
    ∃ p top below, s = ⟨p, top :: below⟩ ∧ t = ⟨p, f top :: below⟩ := by
  obtain ⟨p, ls⟩ := s
  cases ls with
  | nil => cases h
  | cons top below =>
    cases h
    exact ⟨p, top, below, rfl, rfl⟩

theorem above_updateTop {s t : Storage} {f : Layer → Layer} (h : s.updateTop f = .ok t) :
    s.Above t := by
  obtain ⟨p, top, below, rfl, rfl⟩ := updateTop_eq_ok h
  exact ⟨f top, rfl⟩

/-- A write is a charge and a change of the topmost layer. -/
theorem write_eq_ok {s t : Storage} {a : Address} {key : String} {v : Value} {m m' : GasMeter}
    {cls : WriteClass} (h : s.write a key v m = .ok (cls, t, m')) :
    s.updateTop (·.setSlot a key v) = .ok t ∧ cls = s.classify a key ∧ m.charge cls.fee = .ok m' := by
  unfold write at h
  cases hu : s.updateTop (·.setSlot a key v) with
  | error e => rw [hu] at h; cases h
  | ok t' =>
    rw [hu] at h
    simp only at h
    cases hc : m.charge (s.classify a key).fee with
    | error c => rw [hc] at h; cases h
    | ok m'' =>
      rw [hc] at h
      cases h
      exact ⟨rfl, rfl, hc⟩

theorem write_eq_error {s : Storage} {a : Address} {key : String} {v : Value} {m : GasMeter}
    {f : Fault} (h : s.write a key v m = .error f) :
    (∃ e, f = .misuse e ∧ s.layers = []) ∨
      ∃ c n, f = .raised c false ∧ m.charge n = .error c := by
  unfold write at h
  cases hu : s.updateTop (·.setSlot a key v) with
  | error e =>
    rw [hu] at h
    cases h
    exact .inl ⟨e, rfl, updateTop_eq_error hu⟩
  | ok t' =>
    rw [hu] at h
    simp only at h
    cases hc : m.charge (s.classify a key).fee with
    | error c =>
      rw [hc] at h
      cases h
      exact .inr ⟨c, _, rfl, hc⟩
    | ok m'' => rw [hc] at h; cases h

/-- A transfer of nothing does nothing; any other takes from the source what it
adds to the target. -/
theorem transfer_eq_ok {s t : Storage} {source target : Address} {amount : Int}
    (h : s.transfer source target amount = .ok t) :
    (amount = 0 ∧ t = s) ∨
      (0 < amount ∧ amount ≤ s.balanceOf source ∧ ∃ paid,
        s.setBalance source (s.balanceOf source - amount) = .ok paid ∧
        paid.setBalance target (paid.balanceOf target + amount) = .ok t) := by
  unfold transfer at h
  split at h
  · cases h
  · next hneg =>
    split at h
    · next hz =>
      cases h
      exact .inl ⟨hz, rfl⟩
    · next hz =>
      split at h
      · cases h
      · next hle =>
        cases hp : s.setBalance source (s.balanceOf source - amount) with
        | error e => rw [hp] at h; cases h
        | ok paid =>
          rw [hp] at h
          simp only at h
          cases ht : paid.setBalance target (paid.balanceOf target + amount) with
          | error e => rw [ht] at h; cases h
          | ok t' =>
            rw [ht] at h
            cases h
            exact .inr ⟨by omega, by omega, paid, rfl, ht⟩

theorem transfer_eq_error {s : Storage} {source target : Address} {amount : Int} {f : Fault}
    (h : s.transfer source target amount = .error f) :
    (∃ e, f = .misuse e ∧ s.layers = []) ∨
      ∃ c, f = .raised c false ∧ c.kind ≠ .reentrancyBlocked := by
  unfold transfer at h
  split at h
  · cases h
    exact .inr ⟨_, rfl, nofun⟩
  · split at h
    · cases h
    · split at h
      · cases h
        exact .inr ⟨_, rfl, nofun⟩
      · cases hp : s.setBalance source (s.balanceOf source - amount) with
        | error e =>
          rw [hp] at h
          cases h
          exact .inl ⟨e, rfl, updateTop_eq_error hp⟩
        | ok paid =>
          rw [hp] at h
          simp only at h
          cases ht : paid.setBalance target (paid.balanceOf target + amount) with
          | error e => exact absurd (updateTop_eq_error ht) (above_updateTop hp).layers_ne
          | ok t' => rw [ht] at h; cases h

theorem above_transfer {s t : Storage} {source target : Address} {amount : Int}
    (hs : s.layers ≠ []) (h : s.transfer source target amount = .ok t) : s.Above t := by
  rcases transfer_eq_ok h with ⟨-, rfl⟩ | ⟨-, -, paid, hp, ht⟩
  · exact .refl hs
  · exact (above_updateTop hp).trans (above_updateTop ht)

/-! ## Closing a layer -/

/-- The topmost layer is merged into the next one, and the only one into the persisted state. -/
theorem commit_eq_ok {s t : Storage} {d : Option Delta} (h : s.commit = .ok (d, t)) :
    (∃ p last, s = ⟨p, [last]⟩ ∧ t = ⟨p.merge last, []⟩) ∨
      ∃ p top next below, s = ⟨p, top :: next :: below⟩ ∧ t = ⟨p, next.merge top :: below⟩ := by
  obtain ⟨p, ls⟩ := s
  cases ls with
  | nil => cases h
  | cons top rest =>
    cases rest with
    | nil =>
      cases h
      exact .inl ⟨p, top, rfl, rfl⟩
    | cons next below =>
      cases h
      exact .inr ⟨p, top, next, below, rfl, rfl⟩

theorem rollback_eq_ok {s t : Storage} (h : s.rollback = .ok t) :
    ∃ top, s = ⟨t.persisted, top :: t.layers⟩ := by
  obtain ⟨p, ls⟩ := s
  cases ls with
  | nil => cases h
  | cons top below =>
    cases h
    exact ⟨top, rfl⟩

theorem rollback_eq_ok_of_ne {s : Storage} (h : s.layers ≠ []) : ∃ t, s.rollback = .ok t := by
  unfold rollback
  split
  · next hn => exact absurd hn h
  · exact ⟨_, rfl⟩

theorem commit_eq_ok_of_ne {s : Storage} (h : s.layers ≠ []) : ∃ d t, s.commit = .ok (d, t) := by
  unfold commit
  split
  · next hn => exact absurd hn h
  · exact ⟨_, _, rfl⟩
  · exact ⟨_, _, rfl⟩

/-- Undoing whatever was written on a layer of its own leaves what was there. -/
theorem rollback_above_snapshot {s t u : Storage} (h : s.snapshot.Above t)
    (hu : t.rollback = .ok u) : u = s := by
  obtain ⟨top, rfl⟩ := h
  cases hu
  rfl

theorem above_commit_snapshot {s t u : Storage} {d : Option Delta} (hs : s.layers ≠ [])
    (h : s.snapshot.Above t) (hu : t.commit = .ok (d, u)) : s.Above u := by
  obtain ⟨top, rfl⟩ := h
  obtain ⟨p, ls⟩ := s
  cases ls with
  | nil => exact absurd rfl hs
  | cons next below =>
    cases hu
    exact ⟨_, rfl⟩

/-! ## What holds of every layer -/

section Every

variable {s t : Storage} {P : Layer → Prop}

theorem forall_updateTop (h : ∀ l ∈ s.layers, P l) {f : Layer → Layer} (hf : ∀ l, P l → P (f l))
    (ht : s.updateTop f = .ok t) : ∀ l ∈ t.layers, P l := by
  obtain ⟨p, top, below, rfl, rfl⟩ := updateTop_eq_ok ht
  obtain ⟨htop, hbelow⟩ := List.forall_mem_cons.1 h
  exact List.forall_mem_cons.2 ⟨hf top htop, hbelow⟩

/-- What merging keeps, a commit keeps, of the open layers and of the persisted state. -/
theorem forall_commit (h : ∀ l ∈ s.layers, P l)
    (merge : ∀ l upper, P l → P upper → P (l.merge upper)) {d : Option Delta}
    (ht : s.commit = .ok (d, t)) :
    (∀ l ∈ t.layers, P l) ∧ (P s.persisted → P t.persisted) := by
  rcases commit_eq_ok ht with ⟨p, last, rfl, rfl⟩ | ⟨p, top, next, below, rfl, rfl⟩
  · exact ⟨fun _ hl => (nomatch hl), fun hp => merge p last hp (h last List.mem_cons_self)⟩
  · obtain ⟨htop, hrest⟩ := List.forall_mem_cons.1 h
    obtain ⟨hnext, hbelow⟩ := List.forall_mem_cons.1 hrest
    exact ⟨List.forall_mem_cons.2 ⟨merge next top hnext htop, hbelow⟩, id⟩

theorem forall_rollback (h : ∀ l ∈ s.layers, P l) (ht : s.rollback = .ok t) :
    ∀ l ∈ t.layers, P l := by
  obtain ⟨top, rfl⟩ := rollback_eq_ok ht
  exact (List.forall_mem_cons.1 h).2

end Every

end Storage
end ContractVM
