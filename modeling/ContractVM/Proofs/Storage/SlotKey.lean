/-
Keys of mapping entries, and when two of them are one.

A key puts every index in brackets after the base and leaves the text of an index as it
is, so an index that itself contains `][` can be read as the end of one index and the
beginning of the next.  One such index does no harm: the indices before it are read from
the left, those after it from the right, and it is what remains.  With two of them the
border between them can be moved, so a mapping with two text indices has entries that
share a slot.
-/
import ContractVM.Proofs.Text.Hex
import ContractVM.Value
import Mathlib.Data.List.Forall2
import Mathlib.Data.List.Infix
import Mathlib.Tactic.Tauto

namespace ContractVM

/-! ## Texts in brackets -/

namespace Text

/-- What stands between two indices occurs in the text. -/
def HasBorder (x : List Char) : Prop := [']', '['] <:+: x

/-- Every text in brackets, one after the other. -/
def bracketed (texts : List (List Char)) : List Char := texts.flatMap fun x => '[' :: x ++ [']']

theorem bracketed_cons (x : List Char) (rest : List (List Char)) :
    bracketed (x :: rest) = '[' :: x ++ ']' :: bracketed rest := by
  simp [bracketed]

theorem bracketed_append (xs ys : List (List Char)) :
    bracketed (xs ++ ys) = bracketed xs ++ bracketed ys := by
  simp [bracketed]

/-- Texts in brackets begin with one, if there are any. -/
theorem bracketed_head {texts : List (List Char)} (h : texts ≠ []) :
    ∃ y, bracketed texts = '[' :: y := by
  cases texts with
  | nil => exact absurd rfl h
  | cons x rest => exact ⟨_, bracketed_cons x rest⟩

/-- Two borders of one text at different places: a border lies within what one of the two
splits has before it, and within what the other has behind it. -/
theorem hasBorder_of_shift {y z y' : List Char}
    (h : ']' :: '[' :: y = z ++ ']' :: '[' :: y') (hz : z ≠ []) : HasBorder z ∧ HasBorder y := by
  match z, hz with
  | [c], _ =>
    rw [List.singleton_append] at h
    cases h
  | c :: d :: rest, _ =>
    rw [List.cons_append, List.cons_append] at h
    obtain ⟨rfl, rfl⟩ := List.cons.inj (List.cons.inj h).2
    cases (List.cons.inj h).1
    exact ⟨⟨[], rest, rfl⟩, ⟨rest, y', by simp⟩⟩

/-- A text is split at a border in one way only, if there is no further border before it or
none behind it. -/
theorem border_unique {x y x' y' : List Char}
    (h : x ++ ']' :: '[' :: y = x' ++ ']' :: '[' :: y')
    (clear : ¬HasBorder x ∧ ¬HasBorder x' ∨ ¬HasBorder y ∧ ¬HasBorder y') : x = x' ∧ y = y' := by
  rcases List.append_eq_append_iff.1 h with ⟨z, rfl, hz⟩ | ⟨z, rfl, hz⟩
  · by_cases hnil : z = []
    · subst hnil
      rw [List.nil_append] at hz
      cases hz
      exact ⟨(List.append_nil x).symm, rfl⟩
    · obtain ⟨inz, iny⟩ := hasBorder_of_shift hz hnil
      have inx : HasBorder (x ++ z) := inz.trans (List.suffix_append x z).isInfix
      tauto
  · by_cases hnil : z = []
    · subst hnil
      rw [List.nil_append] at hz
      cases hz
      exact ⟨List.append_nil x', rfl⟩
    · obtain ⟨inz, iny⟩ := hasBorder_of_shift hz hnil
      have inx : HasBorder (x' ++ z) := inz.trans (List.suffix_append x' z).isInfix
      tauto

/-- The first text can be read off when it has no border in it. -/
theorem bracketed_cons_inj {x x' : List Char} {rest rest' : List (List Char)}
    (hlength : rest.length = rest'.length) (hx : ¬HasBorder x) (hx' : ¬HasBorder x')
    (h : bracketed (x :: rest) = bracketed (x' :: rest')) :
    x = x' ∧ bracketed rest = bracketed rest' := by
  rw [bracketed_cons, bracketed_cons] at h
  replace h := (List.cons.inj h).2
  by_cases hnil : rest = []
  · have hnil' : rest' = [] := by
      rw [hnil] at hlength
      exact List.eq_nil_of_length_eq_zero hlength.symm
    subst hnil hnil'
    exact ⟨List.append_cancel_right h, rfl⟩
  · have hnil' : rest' ≠ [] := fun h' => by
      rw [h'] at hlength
      exact hnil (List.eq_nil_of_length_eq_zero hlength)
    obtain ⟨y, hy⟩ := bracketed_head hnil
    obtain ⟨y', hy'⟩ := bracketed_head hnil'
    rw [hy, hy'] at h ⊢
    obtain ⟨hxx, hyy⟩ := border_unique h (.inl ⟨hx, hx'⟩)
    exact ⟨hxx, by rw [hyy]⟩

/-- The last text can be read off when it has no border in it. -/
theorem bracketed_concat_inj {x x' : List Char} {init init' : List (List Char)}
    (hlength : init.length = init'.length) (hx : ¬HasBorder x) (hx' : ¬HasBorder x')
    (h : bracketed (init ++ [x]) = bracketed (init' ++ [x'])) :
    x = x' ∧ bracketed init = bracketed init' := by
  have hlast : ∀ (init : List (List Char)) (x : List Char), bracketed (init ++ [x]) =
      (bracketed init ++ '[' :: x) ++ [']'] := fun init x => by
    rw [bracketed_append, bracketed_cons]
    simp [bracketed]
  rw [hlast, hlast] at h
  replace h := List.append_cancel_right h
  rcases List.eq_nil_or_concat init with hnil | ⟨before, last, hinit⟩
  · have hnil' : init' = [] := by
      rw [hnil] at hlength
      exact List.eq_nil_of_length_eq_zero hlength.symm
    subst hnil hnil'
    exact ⟨(List.cons.inj (List.append_cancel_left h)).2, rfl⟩
  · have hne : init' ≠ [] := fun h' => by
      rw [h', hinit] at hlength
      simp at hlength
    obtain ⟨before', last', hinit'⟩ := (List.eq_nil_or_concat init').resolve_left hne
    rw [List.concat_eq_append] at hinit hinit'
    subst hinit hinit'
    rw [hlast, hlast, List.append_assoc _ [']'], List.append_assoc _ [']']] at h
    obtain ⟨hinner, hxx⟩ := border_unique h (.inr ⟨hx, hx'⟩)
    exact ⟨hxx, by rw [hlast, hlast, hinner]⟩

/-- Texts in brackets can be read off from the right while they have no border in them; the
first may be any text. -/
theorem bracketed_inj_of_tail {x x' : List Char} {rest rest' : List (List Char)}
    (hlength : rest.length = rest'.length) (clear : ∀ y ∈ rest ++ rest', ¬HasBorder y)
    (h : bracketed (x :: rest) = bracketed (x' :: rest')) : x :: rest = x' :: rest' := by
  induction rest using List.reverseRecOn generalizing rest' with
  | nil =>
    have hnil : rest' = [] := List.eq_nil_of_length_eq_zero hlength.symm
    subst hnil
    rw [bracketed_cons, bracketed_cons] at h
    rw [List.append_cancel_right (List.cons.inj h).2]
  | append_singleton init y ih =>
    have hne : rest' ≠ [] := fun h' => by
      rw [h'] at hlength
      simp at hlength
    obtain ⟨init', y', hrest'⟩ := (List.eq_nil_or_concat rest').resolve_left hne
    rw [List.concat_eq_append] at hrest'
    subst hrest'
    have hlength' : init.length = init'.length := by simpa using hlength
    rw [← List.cons_append, ← List.cons_append] at h
    obtain ⟨hlast, hinit⟩ := bracketed_concat_inj (by simpa using hlength')
      (clear y (by simp)) (clear y' (by simp)) h
    have hall := ih hlength' (fun z hz => clear z (by
      rcases List.mem_append.1 hz with hz | hz <;> simp [hz])) hinit
    rw [← List.cons_append, hall, hlast, List.cons_append]

/-- Equally many texts in brackets are the same texts, if borders occur at one place of the
two lists at most. -/
theorem bracketed_inj {texts texts' : List (List Char)} (hlength : texts.length = texts'.length)
    (p : Nat) (clear : ∀ i x, i ≠ p → (texts[i]? = some x ∨ texts'[i]? = some x) → ¬HasBorder x)
    (h : bracketed texts = bracketed texts') : texts = texts' := by
  induction texts generalizing texts' p with
  | nil => exact (List.eq_nil_of_length_eq_zero hlength.symm).symm
  | cons x rest ih =>
    cases texts' with
    | nil => cases hlength
    | cons x' rest' =>
      have hrest : rest.length = rest'.length := Nat.succ.inj hlength
      cases p with
      | zero =>
        refine bracketed_inj_of_tail hrest (fun y hy => ?_) h
        rcases List.mem_append.1 hy with hy | hy
        · obtain ⟨i, hi⟩ := List.mem_iff_getElem?.1 hy
          exact clear (i + 1) y (Nat.succ_ne_zero i) (.inl hi)
        · obtain ⟨i, hi⟩ := List.mem_iff_getElem?.1 hy
          exact clear (i + 1) y (Nat.succ_ne_zero i) (.inr hi)
      | succ p =>
        obtain ⟨hx, hbrackets⟩ := bracketed_cons_inj hrest
          (clear 0 x (Nat.succ_ne_zero p).symm (.inl rfl))
          (clear 0 x' (Nat.succ_ne_zero p).symm (.inr rfl)) h
        rw [hx, ih hrest p (fun i y hi hy => clear (i + 1) y (by omega) hy) hbrackets]

end Text

namespace Value

open Text

/-! ## The text of one index -/

theorem nonneg_of_uint256 {n : Int} (h : conforms .uint256 (.int n) = true) : 0 ≤ n :=
  of_decide_eq_true (Bool.and_eq_true_iff.1 h).1

theorem toList_keyText_int {n : Int} (h : 0 ≤ n) :
    (keyText (.int n)).toList = Nat.toDigits 10 n.toNat := by
  simp only [keyText]
  rw [Int.toString_eq_repr, Int.repr_eq_if, if_pos h, Nat.repr_eq_ofList_toDigits,
    String.toList_ofList]

/-- An index that is no text has no bracket in it. -/
theorem bracket_notMem_keyText {t : ParamType} (ht : t ≠ .string) {v : Value}
    (h : conforms t v = true) : ']' ∉ v.keyText.toList := by
  cases t with
  | string => exact absurd rfl ht
  | uint256 =>
    cases v with
    | int n =>
      rw [toList_keyText_int (nonneg_of_uint256 h)]
      intro hc
      exact absurd (Nat.isDigit_of_mem_toDigits (by decide) (by decide) hc) (by decide)
    | bool b | text s => cases h
  | bool =>
    cases v with
    | bool b => cases b <;> decide
    | int n | text s => cases h
  | address =>
    cases v with
    | text s =>
      obtain ⟨digits, heq, -, hlower⟩ := Address.isValid_iff.1 h
      intro hc
      unfold keyText at hc
      rw [heq, List.mem_cons, List.mem_cons] at hc
      rcases hc with hc | hc | hc
      · exact absurd hc (by decide)
      · exact absurd hc (by decide)
      · exact absurd (hlower _ hc) (by decide)
    | int n | bool b => cases h

/-- Two values of one type with the same text are the same. -/
theorem keyText_inj {t : ParamType} {v w : Value} (hv : conforms t v = true)
    (hw : conforms t w = true) (h : v.keyText = w.keyText) : v = w := by
  cases t with
  | uint256 =>
    cases v with
    | int n =>
      cases w with
      | int m =>
        have hn := nonneg_of_uint256 hv
        have hm := nonneg_of_uint256 hw
        have hdigits := congrArg String.toList h
        rw [toList_keyText_int hn, toList_keyText_int hm] at hdigits
        have hsame := congrArg (Nat.ofDigitChars 10 · 0) hdigits
        simp only [Nat.ofDigitChars_ten_toDigits] at hsame
        rw [show n = m by omega]
      | bool b | text s => cases hw
    | bool b | text s => cases hv
  | bool =>
    cases v with
    | bool b =>
      cases w with
      | bool c => cases b <;> cases c <;> first | rfl | exact absurd h (by decide)
      | int m | text s => cases hw
    | int n | text s => cases hv
  | address | string =>
    cases v with
    | text s =>
      cases w with
      | text r => exact congrArg Value.text h
      | int m | bool b => cases hw
    | int n | bool b => cases hv

/-! ## Keys -/

/-- Indices of a mapping whose keys have the given types. -/
def Conform (types : List ParamType) (keys : List Value) : Prop :=
  List.Forall₂ (fun t v => conforms t v = true) types keys

/-- The text of an index can be taken for the border of two. -/
def Straddles (v : Value) : Prop := HasBorder v.keyText.toList

/-- Of all indices of two keys, those that straddle stand at one place at most. -/
def StraddleOnce (ks ks' : List Value) : Prop :=
  ∀ (i j : Nat) (v w : Value), (ks[i]? = some v ∨ ks'[i]? = some v) →
    (ks[j]? = some w ∨ ks'[j]? = some w) → v.Straddles → w.Straddles → i = j

theorem not_straddles {t : ParamType} (ht : t ≠ .string) {v : Value} (h : conforms t v = true) :
    ¬v.Straddles :=
  fun hv => bracket_notMem_keyText ht h (hv.subset List.mem_cons_self)

/-- The characters of the indices. -/
def keyTexts (keys : List Value) : List (List Char) := keys.map fun k => k.keyText.toList

theorem toList_slotKey (base : String) (keys : List Value) :
    (slotKey base keys).toList = base.toList ++ bracketed (keyTexts keys) := by
  unfold slotKey
  induction keys generalizing base with
  | nil => exact (List.append_nil _).symm
  | cons k rest ih =>
    rw [List.foldl_cons, ih]
    show _ = base.toList ++ bracketed (k.keyText.toList :: keyTexts rest)
    rw [bracketed_cons, String.toList_append, String.toList_append, String.toList_append]
    simp

theorem keyTexts_inj {types : List ParamType} {ks ks' : List Value} (h : Conform types ks)
    (h' : Conform types ks') (heq : keyTexts ks = keyTexts ks') : ks = ks' := by
  induction h generalizing ks' with
  | nil =>
    cases h'
    rfl
  | cons hv _ ih =>
    cases h' with
    | cons hw hrest =>
      obtain ⟨hhead, htail⟩ := List.cons.inj heq
      rw [keyText_inj hv hw (String.toList_inj.1 hhead), ih hrest htail]

theorem slotKey_inj {types : List ParamType} {base : String} {ks ks' : List Value}
    (h : Conform types ks) (h' : Conform types ks') (p : Nat)
    (clear : ∀ i v, i ≠ p → (ks[i]? = some v ∨ ks'[i]? = some v) → ¬v.Straddles)
    (heq : slotKey base ks = slotKey base ks') : ks = ks' := by
  have hbrackets : bracketed (keyTexts ks) = bracketed (keyTexts ks') := by
    have := congrArg String.toList heq
    rw [toList_slotKey, toList_slotKey] at this
    exact List.append_cancel_left this
  refine keyTexts_inj h h' (bracketed_inj ?_ p (fun i x hi hx => ?_) hbrackets)
  · unfold keyTexts
    rw [List.length_map, List.length_map, ← h.length_eq, ← h'.length_eq]
  · unfold keyTexts at hx
    rw [List.getElem?_map, List.getElem?_map, Option.map_eq_some_iff, Option.map_eq_some_iff] at hx
    rcases hx with ⟨v, hv, rfl⟩ | ⟨v, hv, rfl⟩
    · exact clear i v hi (.inl hv)
    · exact clear i v hi (.inr hv)

/-! ## Mappings with two text indices -/

theorem Conform.getElem? {types : List ParamType} {ks : List Value} (h : Conform types ks) {i : Nat}
    {v : Value} (hv : ks[i]? = some v) : ∃ t, types[i]? = some t ∧ conforms t v = true := by
  induction h generalizing i with
  | nil => cases hv
  | cons hhead _ ih =>
    cases i with
    | zero =>
      cases hv
      exact ⟨_, rfl, hhead⟩
    | succ i => exact ih hv

/-- Where a type occurs once at most, it occurs at one place at most. -/
theorem exists_place {types : List ParamType} {t : ParamType} (h : types.count t ≤ 1) :
    ∃ p, ∀ i : Nat, types[i]? = some t → i = p := by
  induction types with
  | nil => exact ⟨0, fun i hi => by cases hi⟩
  | cons u rest ih =>
    by_cases hu : u = t
    · refine ⟨0, fun i hi => ?_⟩
      cases i with
      | zero => rfl
      | succ i =>
        rw [hu, List.count_cons_self] at h
        have hmem : t ∈ rest := List.mem_of_getElem? hi
        have := List.count_pos_iff.2 hmem
        omega
    · rw [List.count_cons_of_ne hu] at h
      obtain ⟨p, hp⟩ := ih h
      refine ⟨p + 1, fun i hi => ?_⟩
      cases i with
      | zero => exact absurd (Option.some.inj hi) hu
      | succ i => rw [hp i hi]

/-- A value of every type, as indices of a mapping. -/
theorem conform_default (types : List ParamType) : Conform types (types.map default) := by
  induction types with
  | nil => exact .nil
  | cons t rest ih => exact .cons (conforms_default t) ih

/-- Two entries of a mapping with two text indices that share a slot: everything between the
two indices is once read as part of the second and once as part of the first. -/
theorem exists_collision {types : List ParamType} (h : 1 < types.count .string) (base : String) :
    ∃ ks ks', Conform types ks ∧ Conform types ks' ∧ ks ≠ ks' ∧
      slotKey base ks = slotKey base ks' := by
  obtain ⟨before, behind, rfl, hbefore⟩ :=
    List.eq_append_cons_of_mem (List.count_pos_iff.1 (Nat.lt_of_succ_lt h))
  rw [List.count_append, List.count_eq_zero.2 hbefore, List.count_cons_self] at h
  obtain ⟨mid, after, rfl⟩ :=
    List.append_of_mem (List.count_pos_iff.1 (show 0 < behind.count .string by omega))
  -- what stands between the two indices, from the end of the first to the beginning of the second
  let between := ']' :: bracketed (keyTexts (mid.map default)) ++ ['[']
  let entry (first second : List Char) := before.map default ++
    text (String.ofList first) :: (mid.map default ++ text (String.ofList second) :: after.map default)
  have hentry : ∀ first second,
      Conform (before ++ .string :: (mid ++ .string :: after)) (entry first second) := by
    intro first second
    have hafter := List.Forall₂.cons (a := .string) (b := text (String.ofList second)) rfl
      (conform_default after)
    exact List.rel_append (conform_default before)
      (.cons rfl (List.rel_append (conform_default mid) hafter))
  refine ⟨entry [] between, entry between [], hentry _ _, hentry _ _, fun heq => ?_, ?_⟩
  · have hfirst := (List.cons.inj (List.append_cancel_left heq)).1
    simp [between] at hfirst
  · rw [← String.toList_inj, toList_slotKey, toList_slotKey]
    simp [entry, between, keyTexts, bracketed_cons, bracketed_append, keyText]

/-! ## Which mappings are free of collisions -/

/-- Two entries of a mapping share a slot only if indices at two places straddle a border.  So
the types of the indices say whether a mapping is free of collisions: it is if and only if at
most one of them is text. -/
theorem slotKey_separates (types : List ParamType) :
    (∀ base ks ks', Conform types ks → Conform types ks' → StraddleOnce ks ks' →
      slotKey base ks = slotKey base ks' → ks = ks') ∧
    ((∀ base ks ks', Conform types ks → Conform types ks' →
      slotKey base ks = slotKey base ks' → ks = ks') ↔ types.count .string ≤ 1) := by
  have separated : ∀ base ks ks', Conform types ks → Conform types ks' → StraddleOnce ks ks' →
      slotKey base ks = slotKey base ks' → ks = ks' := by
    intro base ks ks' h h' honce heq
    by_cases hany : ∃ (p : Nat) (v : Value), (ks[p]? = some v ∨ ks'[p]? = some v) ∧ v.Straddles
    · obtain ⟨p, v, hv, hstraddles⟩ := hany
      exact slotKey_inj h h' p (fun i w hi hw hws => hi (honce i p w v hw hv hws hstraddles)) heq
    · exact slotKey_inj h h' 0 (fun i w _ hw hws => hany ⟨i, w, hw, hws⟩) heq
  refine ⟨separated, fun hinj => ?_, fun hcount base ks ks' h h' heq => ?_⟩
  · by_contra hcount
    obtain ⟨ks, ks', h, h', hne, heq⟩ := exists_collision (Nat.lt_of_not_le hcount) ""
    exact hne (hinj "" ks ks' h h' heq)
  · obtain ⟨p, hp⟩ := exists_place hcount
    have place : ∀ {keys : List Value}, Conform types keys → ∀ {i : Nat} {v : Value},
        keys[i]? = some v → v.Straddles → i = p := by
      intro keys hkeys i v hv hstraddles
      obtain ⟨t, ht, hconforms⟩ := hkeys.getElem? hv
      by_cases hstring : t = .string
      · exact hp i (hstring ▸ ht)
      · exact absurd hstraddles (not_straddles hstring hconforms)
    refine separated base ks ks' h h' (fun i j v w hi hj hv hw => ?_) heq
    have hat : ∀ {i : Nat} {v : Value}, (ks[i]? = some v ∨ ks'[i]? = some v) → v.Straddles →
        i = p := fun hv hstraddles => hv.elim (place h · hstraddles) (place h' · hstraddles)
    rw [hat hi hv, hat hj hw]

/-- A text index of any form beside a number. -/
theorem slotKey_separates_debts :
    slotKey "owed" [.text "a][1", .int 2] ≠ slotKey "owed" [.text "a", .int 12] := fun h => by
  have hsame := (slotKey_separates [.string, .uint256]).2.2 (by decide) "owed" _ _
    (.cons rfl (.cons rfl .nil)) (.cons rfl (.cons rfl .nil)) h
  exact absurd hsame (by decide)

/-- Beside another text index, whoever chooses the second index of an entry reaches the slot of
a different one. -/
theorem slotKey_shared :
    Conform [.string, .string] [.text "a", .text "b][c"] ∧
    Conform [.string, .string] [.text "a][b", .text "c"] ∧
    [Value.text "a", .text "b][c"] ≠ [.text "a][b", .text "c"] ∧
    slotKey "cell" [.text "a", .text "b][c"] = slotKey "cell" [.text "a][b", .text "c"] :=
  ⟨.cons rfl (.cons rfl .nil), .cons rfl (.cons rfl .nil), by decide, by decide⟩

end Value
end ContractVM
