/-
What a state root says about the persisted state.

It depends on the contents only: neither the order of the writes nor what was written over
shows in a dump (`Storage.dump_congr`).  And it fixes them.  An account can be read back from
what is hashed for it (`Account.encode_injective`), so machines with one root have the same
accounts unless two of the strings that were hashed for the roots have one hash, or an account
is written as what is hashed for an inner node (`stateRoot_binds`).

A balance of zero is the exception: for an account that has slots it is hashed like none.
And of a text only what is written for it counts, so a root knows well-formed texts apart and
no others (`stateRoot_blind_to_zero`).
-/
import ContractVM.Proofs.Hash.Merkle
import ContractVM.Proofs.Machine.Lasting
import ContractVM.Proofs.Machine.Root
import ContractVM.Proofs.Storage.Dump

namespace ContractVM

open Codec

/-! ## Written accounts -/

section Lists

variable {α β ε : Type} {f : α → Except ε β}

theorem mapM_injective {l l' : List α} {bs : List β}
    (inj : ∀ a ∈ l, ∀ a' ∈ l', ∀ b, f a = .ok b → f a' = .ok b → a = a')
    (h : l.mapM f = .ok bs) (h' : l'.mapM f = .ok bs) : l = l' := by
  induction l generalizing l' bs with
  | nil =>
    cases h
    cases l' with
    | nil => rfl
    | cons a' rest' =>
      rw [List.mapM_cons] at h'
      obtain ⟨b, -, h'⟩ := bind_eq_ok.1 h'
      obtain ⟨bs, -, h'⟩ := bind_eq_ok.1 h'
      cases h'
  | cons a rest ih =>
    rw [List.mapM_cons] at h
    obtain ⟨b, hb, h⟩ := bind_eq_ok.1 h
    obtain ⟨bs, hbs, h⟩ := bind_eq_ok.1 h
    cases h
    cases l' with
    | nil => cases h'
    | cons a' rest' =>
      rw [List.mapM_cons] at h'
      obtain ⟨b', hb', h'⟩ := bind_eq_ok.1 h'
      obtain ⟨bs', hbs', h'⟩ := bind_eq_ok.1 h'
      cases h'
      rw [inj a List.mem_cons_self a' List.mem_cons_self b hb hb',
        ih (fun x hx y hy => inj x (List.mem_cons_of_mem a hx) y (List.mem_cons_of_mem a' hy)) hbs hbs']

theorem mem_of_mapM {l : List α} {bs : List β} (h : l.mapM f = .ok bs) {b : β} :
    b ∈ bs ↔ ∃ a ∈ l, f a = .ok b := by
  induction l generalizing bs with
  | nil =>
    cases h
    simp
  | cons a rest ih =>
    rw [List.mapM_cons] at h
    obtain ⟨c, hc, h⟩ := bind_eq_ok.1 h
    obtain ⟨bs, hbs, h⟩ := bind_eq_ok.1 h
    cases h
    simp only [List.mem_cons, ih hbs, exists_eq_or_imp, hc]
    exact or_congr_left ⟨fun h => congrArg Except.ok h.symm, fun h => (Except.ok.inj h).symm⟩

theorem mapM_map {γ : Type} (g : β → γ) (l : List α) :
    l.mapM (fun a => do return g (← f a)) = (do return (← l.mapM f).map g : Except ε (List γ)) := by
  induction l with
  | nil => rfl
  | cons a rest ih =>
    rw [List.mapM_cons, List.mapM_cons, ih]
    cases f a with
    | error e => rfl
    | ok b => cases rest.mapM f <;> rfl

end Lists

namespace Codec

theorem intBytes_injective {n n' : Int} {b : Bytes} (h : Text.intBytes n = .ok b)
    (h' : Text.intBytes n' = .ok b) : n = n' :=
  (intBytes_eq_ok h).symm.trans (intBytes_eq_ok h')

theorem intItem_injective {n n' : Int} {i : Rlp.Item} (h : intItem n = .ok i)
    (h' : intItem n' = .ok i) : n = n' := by
  obtain ⟨b, hb, rfl⟩ := hexItem_eq_ok h
  obtain ⟨b', hb', hi⟩ := hexItem_eq_ok h'
  cases hi
  exact intBytes_injective hb hb'

theorem addressItem_injective {a a' : Address} {i : Rlp.Item} (valid : Address.isValid a = true)
    (valid' : Address.isValid a' = true) (h : addressItem a = .ok i) (h' : addressItem a' = .ok i) :
    a = a' := by
  obtain ⟨b, rfl, hb⟩ := addressItem_eq_ok valid h
  obtain ⟨b', hi, hb'⟩ := addressItem_eq_ok valid' h'
  cases hi
  exact Except.ok.inj (hb.symm.trans hb')

theorem boolBytes_injective {b b' : Bool} (h : boolBytes b = boolBytes b') : b = b' := by
  rw [← readBool_boolBytes b, h, readBool_boolBytes]

theorem valueParts_eq_ok {v : Value} {tag payload : Bytes} (h : valueParts v = .ok (tag, payload)) :
    (∃ n, v = .int n ∧ tag = Text.utf8 "u" ∧ Text.intBytes n = .ok payload) ∨
      (∃ b, v = .bool b ∧ tag = Text.utf8 "b" ∧ payload = boolBytes b) ∨
      ∃ s, v = .text s ∧ tag = Text.utf8 "s" ∧ payload = Text.utf8 s := by
  cases v with
  | int n =>
    unfold valueParts at h
    cases hn : Text.intBytes n with
    | error e => simp only [hn, reduceCtorEq] at h
    | ok b =>
      simp only [hn] at h
      cases h
      exact .inl ⟨n, rfl, rfl, hn⟩
  | bool b =>
    cases h
    exact .inr (.inl ⟨b, rfl, rfl, rfl⟩)
  | text s =>
    cases h
    exact .inr (.inr ⟨s, rfl, rfl, rfl⟩)

/-- The tag of a value tells its type, and the payload the rest. -/
theorem valueParts_injective {v v' : Value} {parts : Bytes × Bytes} (h : valueParts v = .ok parts)
    (h' : valueParts v' = .ok parts) : v = v' := by
  obtain ⟨tag, payload⟩ := parts
  have tags : Text.utf8 "u" ≠ Text.utf8 "b" ∧ Text.utf8 "u" ≠ Text.utf8 "s" ∧
      Text.utf8 "b" ≠ Text.utf8 "s" :=
    ⟨fun h => absurd (Text.utf8_injective h) (by decide),
      fun h => absurd (Text.utf8_injective h) (by decide),
      fun h => absurd (Text.utf8_injective h) (by decide)⟩
  rcases valueParts_eq_ok h with ⟨n, rfl, ht, hp⟩ | ⟨b, rfl, ht, hp⟩ | ⟨s, rfl, ht, hp⟩ <;>
    rcases valueParts_eq_ok h' with ⟨n', rfl, ht', hp'⟩ | ⟨b', rfl, ht', hp'⟩ | ⟨s', rfl, ht', hp'⟩
  · rw [intBytes_injective hp hp']
  · exact absurd (ht.symm.trans ht') tags.1
  · exact absurd (ht.symm.trans ht') tags.2.1
  · exact absurd (ht'.symm.trans ht) tags.1
  · rw [boolBytes_injective (hp.symm.trans hp')]
  · exact absurd (ht.symm.trans ht') tags.2.2
  · exact absurd (ht'.symm.trans ht) tags.2.1
  · exact absurd (ht'.symm.trans ht) tags.2.2
  · rw [Text.utf8_injective (hp.symm.trans hp')]

theorem valueItem_injective {v v' : Value} {i : Rlp.Item} (h : valueItem v = .ok i)
    (h' : valueItem v' = .ok i) : v = v' := by
  obtain ⟨parts, hparts, h⟩ := bind_eq_ok.1 h
  obtain ⟨parts', hparts', h'⟩ := bind_eq_ok.1 h'
  cases h
  obtain ⟨tag, payload⟩ := parts
  obtain ⟨tag', payload'⟩ := parts'
  cases h'
  exact valueParts_injective hparts hparts'

end Codec

namespace Account

/-- What an account is written as fixes its address, its balance and its slots. -/
theorem encode_injective {a a' : Account} {b : Bytes} (valid : Address.isValid a.address = true)
    (valid' : Address.isValid a'.address = true) (h : a.encode = .ok b) (h' : a'.encode = .ok b) :
    a = a' := by
  obtain ⟨address, haddress, h⟩ := bind_eq_ok.1 h
  obtain ⟨balance, hbalance, h⟩ := bind_eq_ok.1 h
  obtain ⟨slots, hslots, h⟩ := bind_eq_ok.1 h
  obtain ⟨address', haddress', h'⟩ := bind_eq_ok.1 h'
  obtain ⟨balance', hbalance', h'⟩ := bind_eq_ok.1 h'
  obtain ⟨slots', hslots', h'⟩ := bind_eq_ok.1 h'
  have hitem := (readItem_packed h).symm.trans (readItem_packed h')
  cases hitem
  have slot_injective : ∀ e ∈ a.slots, ∀ e' ∈ a'.slots, ∀ i : Rlp.Item,
      (do return Rlp.Item.list [textItem e.1, ← valueItem e.2] : Except Fault Rlp.Item) = .ok i →
      (do return Rlp.Item.list [textItem e'.1, ← valueItem e'.2] : Except Fault Rlp.Item) = .ok i →
        e = e' := by
    intro e _ e' _ i he he'
    obtain ⟨value, hvalue, he⟩ := bind_eq_ok.1 he
    obtain ⟨value', hvalue', he'⟩ := bind_eq_ok.1 he'
    cases he
    obtain ⟨hname, hvalues⟩ := List.cons.inj (Rlp.Item.list.inj (Except.ok.inj he'))
    have hkey := Text.utf8_injective (Rlp.Item.bytes.inj hname)
    cases hvalues
    exact Prod.ext hkey.symm (valueItem_injective hvalue hvalue')
  obtain ⟨_, _, _⟩ := a
  obtain ⟨_, _, _⟩ := a'
  cases addressItem_injective valid valid' haddress haddress'
  cases intItem_injective hbalance hbalance'
  cases mapM_injective slot_injective hslots hslots'
  rfl

/-- An account is in every list that has what it is written as. -/
theorem mem_of_encode {l l' : List Account} {bs bs' : List Bytes}
    (valid : ∀ a ∈ l ++ l', Address.isValid a.address = true) (h : l.mapM encode = .ok bs)
    (h' : l'.mapM encode = .ok bs') (sub : ∀ b ∈ bs, b ∈ bs') {a : Account} (ha : a ∈ l) :
    a ∈ l' := by
  obtain ⟨b, hb⟩ := exists_of_mapM h ha
  obtain ⟨a', ha', hb'⟩ := (mem_of_mapM h').1 (sub b ((mem_of_mapM h).2 ⟨a, ha, hb⟩))
  rw [encode_injective (valid a (List.mem_append_left _ ha))
    (valid a' (List.mem_append_right _ ha')) hb hb']
  exact ha'

theorem encode_ne_nil {a : Account} {b : Bytes} (h : a.encode = .ok b) : b ≠ [] := by
  rintro rfl
  obtain ⟨address, -, h⟩ := bind_eq_ok.1 h
  obtain ⟨balance, -, h⟩ := bind_eq_ok.1 h
  obtain ⟨slots, -, h⟩ := bind_eq_ok.1 h
  exact nomatch readItem_packed h

end Account

/-! ## Roots -/

/-- The root over what the accounts are written as. -/
theorem stateRoot_eq (hash : Bytes → Bytes) (accounts : List Account) :
    stateRoot hash accounts =
      (do return Text.hex0x (Merkle.root hash ((← accounts.mapM Account.encode).map hash))) := by
  have hleaves : accounts.mapM (Account.leaf hash) =
      (do return (← accounts.mapM Account.encode).map hash) := mapM_map hash accounts
  unfold stateRoot
  rw [hleaves]
  cases accounts.mapM Account.encode <;> rfl

/-- The hash is fixed when a machine starts. -/
theorem Operation.hash_after {m : Machine} (idle : m.storage.layers = []) (op : Operation) :
    (op.after m).hash = m.hash := by
  have ends := op.ends idle
  generalize op.succeeds m = b at ends
  generalize op.after m = m' at ends ⊢
  cases ends with
  | failed | undeployed | blockSet => rfl
  | deployed _ _ _ _ commits => exact commits.hash
  | called _ _ commits => exact commits.hash
  | funded commits => exact commits.hash
  | terminated _ _ commits => exact commits.hash

namespace Machine

variable {m n : Machine}

theorem hash_perform (settings : Settings) (hash : Bytes → Bytes) (ops : List Operation) :
    ((start settings hash).perform ops).hash = hash :=
  Reachable.perform_keeps (P := fun m => m.hash = hash) ⟨settings, hash, [], rfl⟩ rfl
    fun op _ _ reachable h => (op.hash_after reachable.idle).trans h

theorem Reachable.full (h : m.Reachable) : m.storage.persisted.Full :=
  fun e he => (h.encodable.within.slots e he).2

open Merkle (Collides strings hashed)

/-- Roots of equal contents are equal, and equal roots are those of equal contents, unless two
of the strings that were hashed for them have one hash or an account is written as what is
hashed for an inner node. -/
theorem stateRoot_binds (hm : m.Reachable) (hn : n.Reachable) (same : m.hash = n.hash) :
    (m.storage.persisted.Agrees n.storage.persisted →
      m.storage.dump = n.storage.dump ∧ m.stateRoot = n.stateRoot) ∧
    ((∀ x, (m.hash x).length = 32) →
      (∀ a ∈ m.storage.dump ++ n.storage.dump, Address.isValid a.address = true) →
      ∀ r, m.stateRoot = .ok r → n.stateRoot = .ok r →
        m.storage.persisted.Agrees n.storage.persisted ∨
          ∃ es es', m.storage.dump.mapM Account.encode = .ok es ∧
            n.storage.dump.mapM Account.encode = .ok es' ∧
            (Collides m.hash (strings m.hash es ++ strings m.hash es') ∨
              ∃ x ∈ es ++ es', x.length = 64 ∧
                x ∈ hashed m.hash (es.map m.hash) ++ hashed m.hash (es'.map m.hash))) := by
  constructor
  · intro agrees
    have hdump := Storage.dump_congr hm.full hn.full agrees
    exact ⟨hdump, by unfold stateRoot; rw [hdump, same]⟩
  · intro length valid r hr hr'
    unfold stateRoot at hr hr'
    rw [stateRoot_eq] at hr hr'
    rw [← same] at hr'
    obtain ⟨es, hes, hr⟩ := bind_eq_ok.1 hr
    obtain ⟨es', hes', hr'⟩ := bind_eq_ok.1 hr'
    have hroot := Text.hex0x_injective (Except.ok.inj (hr.trans hr'.symm))
    have full : ∀ x ∈ es ++ es', x ≠ [] := by
      intro x hx
      rcases List.mem_append.1 hx with hx | hx
      · obtain ⟨a, -, ha⟩ := (mem_of_mapM hes).1 hx
        exact Account.encode_ne_nil ha
      · obtain ⟨a, -, ha⟩ := (mem_of_mapM hes').1 hx
        exact Account.encode_ne_nil ha
    rcases Merkle.root_binds length full hroot with hmem | hbroken
    · refine .inl (Storage.agrees_of_dump hm.full hn.full (Storage.dump_eq_of_mem_iff ?_))
      have valid' : ∀ a ∈ n.storage.dump ++ m.storage.dump, Address.isValid a.address = true :=
        fun a ha => valid a (List.mem_append.2 (List.mem_append.1 ha).symm)
      exact fun a => ⟨Account.mem_of_encode valid hes hes' fun b hb => (hmem b).1 hb,
        Account.mem_of_encode valid' hes' hes fun b hb => (hmem b).2 hb⟩
    · exact .inr ⟨es, es', hes, hes', hbroken⟩

/-! ## A balance of zero -/

namespace Bell

def chime : Operation := .call Address.zero address "ring" ∅ 0 none

/-- The bell with a slot and without a balance. -/
def chimed : Machine := (start .standard fun _ => digest).perform [deployment, chime]

/-- The bell with a slot and with a balance of zero. -/
def unpaid : Machine :=
  (start .standard fun _ => digest).perform [deployment, chime, .fund address 0]

theorem chimed_reachable : chimed.Reachable := ⟨.standard, _, [deployment, chime], rfl⟩

theorem unpaid_reachable : unpaid.Reachable :=
  ⟨.standard, _, [deployment, chime, .fund address 0], rfl⟩

theorem hash_deployed : deployed.hash = fun _ => digest :=
  hash_perform .standard (fun _ => digest) [deployment]

theorem hash_chimed : chimed.hash = fun _ => digest :=
  hash_perform .standard (fun _ => digest) [deployment, chime]

theorem hash_unpaid : unpaid.hash = fun _ => digest :=
  hash_perform .standard (fun _ => digest) [deployment, chime, .fund address 0]

/-- The account of the bell, whether it was paid nothing or not paid. -/
def account : Account := ⟨address, 0, [("rung", .int 1)]⟩

theorem dumps : deployed.storage.dump = [] ∧ chimed.storage.dump = [account] ∧
    unpaid.storage.dump = [account] := by decide +kernel

theorem balances : chimed.storage.persisted.balance? address = none ∧
    unpaid.storage.persisted.balance? address = some 0 := by decide +kernel

/-- What is hashed for the account. -/
def leaf : Bytes := account.encode.toOption.getD []

theorem account_written : Address.isValid account.address = true ∧
    account.encode.toOption.isSome = true ∧ leaf.length ≠ 64 := by decide +kernel

theorem valid_account : ∀ a ∈ [account], Address.isValid a.address = true :=
  List.forall_mem_singleton.2 account_written.1

theorem encode_account : [account].mapM Account.encode = .ok [leaf] := by
  have written := account_written.2.1
  unfold leaf
  cases he : account.encode with
  | error e =>
    rw [he] at written
    cases written
  | ok b =>
    rw [List.mapM_cons, he]
    rfl

theorem stateRoot_chimed : chimed.stateRoot = .ok (Text.hex0x digest) := by
  rw [stateRoot, stateRoot_eq, dumps.2.1, encode_account, hash_chimed]
  show Except.ok (Text.hex0x (Merkle.root (fun _ => digest) [digest])) = _
  rw [Merkle.root]

theorem stateRoot_unpaid : unpaid.stateRoot = .ok (Text.hex0x digest) := by
  rw [← stateRoot_chimed, stateRoot, stateRoot, dumps.2.1, dumps.2.2, hash_chimed, hash_unpaid]

theorem stateRoot_deployed : deployed.stateRoot = .ok (Text.hex0x digest) := by
  rw [stateRoot, dumps.1, stateRoot_eq, hash_deployed]
  show Except.ok (Text.hex0x (Merkle.root (fun _ => digest) [])) = _
  rw [Merkle.root]

end Bell

open Bell in
/-- A zero balance leaves the root alone, and a hash that gives every string the same digest
is blamed for the root of a machine that has an account. -/
theorem stateRoot_binds_bell :
    (chimed.Reachable ∧ unpaid.Reachable ∧ chimed.hash = unpaid.hash) ∧
      chimed.stateRoot = unpaid.stateRoot ∧
      (deployed.Reachable ∧ deployed.hash = chimed.hash) ∧
      ¬ deployed.storage.persisted.Agrees chimed.storage.persisted ∧
      ∃ es es', deployed.storage.dump.mapM Account.encode = .ok es ∧
        chimed.storage.dump.mapM Account.encode = .ok es' ∧
        (Collides deployed.hash (strings deployed.hash es ++ strings deployed.hash es') ∨
          ∃ x ∈ es ++ es', x.length = 64 ∧
            x ∈ hashed deployed.hash (es.map deployed.hash) ++
              hashed deployed.hash (es'.map deployed.hash)) := by
  have reachable : deployed.Reachable := ⟨.standard, _, [deployment], rfl⟩
  have hsame : deployed.hash = chimed.hash := hash_deployed.trans hash_chimed.symm
  have hzero : chimed.hash = unpaid.hash := hash_chimed.trans hash_unpaid.symm
  have agrees := Storage.agrees_of_dump chimed_reachable.full unpaid_reachable.full
    (dumps.2.1.trans dumps.2.2.symm)
  have apart : ¬ deployed.storage.persisted.Agrees chimed.storage.persisted := by
    intro h
    have hdump := Storage.dump_congr reachable.full chimed_reachable.full h
    rw [dumps.1, dumps.2.1] at hdump
    cases hdump
  have length : ∀ x, (deployed.hash x).length = 32 := by
    rw [hash_deployed]
    exact fun _ => rfl
  refine ⟨⟨chimed_reachable, unpaid_reachable, hzero⟩,
    ((stateRoot_binds chimed_reachable unpaid_reachable hzero).1 agrees).2,
    ⟨reachable, hsame⟩, apart, ?_⟩
  refine ((stateRoot_binds reachable chimed_reachable hsame).2 length ?_ _ stateRoot_deployed
    stateRoot_chimed).resolve_left apart
  rw [dumps.1, dumps.2.1]
  exact valid_account

open Bell in
/-- The balances differ, the roots do not, and no string that was hashed is to blame.  Nor can
a root tell two surrogates apart that have no partner: as keys or values they are written
alike. -/
theorem stateRoot_blind_to_zero :
    (chimed.Reachable ∧ unpaid.Reachable ∧ chimed.hash = unpaid.hash ∧
      (∀ x, (chimed.hash x).length = 32) ∧
      ∀ a ∈ chimed.storage.dump ++ unpaid.storage.dump, Address.isValid a.address = true) ∧
    (∃ r, chimed.stateRoot = .ok r ∧ unpaid.stateRoot = .ok r) ∧
    chimed.storage.persisted.balance? address = none ∧
    unpaid.storage.persisted.balance? address = some 0 ∧
    chimed.storage.dump.mapM Account.encode = .ok [leaf] ∧
    unpaid.storage.dump.mapM Account.encode = .ok [leaf] ∧
    ¬ Collides chimed.hash (strings chimed.hash [leaf] ++ strings unpaid.hash [leaf]) ∧
    leaf.length ≠ 64 ∧
    Text.utf8OfUnits [0xD800] = Text.utf8OfUnits [0xD801] := by
  have hstrings (hash : Bytes → Bytes) : strings hash [leaf] = [leaf] := by
    rw [strings, List.map_singleton, hashed, List.append_nil]
  refine ⟨⟨chimed_reachable, unpaid_reachable, hash_chimed.trans hash_unpaid.symm, ?_, ?_⟩,
    ⟨_, stateRoot_chimed, stateRoot_unpaid⟩, balances.1, balances.2, ?_, ?_, ?_,
    account_written.2.2,
    (Text.utf8OfUnits_lone (by decide)).trans (Text.utf8OfUnits_lone (by decide)).symm⟩
  · rw [hash_chimed]
    exact fun _ => rfl
  · rw [dumps.2.1, dumps.2.2]
    exact List.forall_mem_append.2 ⟨valid_account, valid_account⟩
  · rw [dumps.2.1]
    exact encode_account
  · rw [dumps.2.2]
    exact encode_account
  · rw [hstrings, hstrings]
    rintro ⟨x, hx, y, hy, hne, -⟩
    have hleaf : ∀ z ∈ [leaf] ++ [leaf], z = leaf := by simp
    exact hne ((hleaf x hx).trans (hleaf y hy).symm)

end Machine

end ContractVM
