/-
Fingerprints over an arbitrary hash: the root of the persisted state, with one
leaf per account, and the addresses of new contracts.
-/
import ContractVM.Hash.Merkle
import ContractVM.Journal.Codec
import ContractVM.Storage.Dump

namespace ContractVM

open Rlp (Item)

/-- What is hashed for an account: its address, balance and slots. -/
def Account.encode (a : Account) : Except Fault Bytes := do
  let address ← Codec.addressItem a.address
  let balance ← Codec.intItem a.balance
  let slots ← a.slots.mapM fun e => do
    let value ← Codec.valueItem e.2
    return Item.list [Codec.textItem e.1, value]
  Codec.packed (.list [address, balance, .list slots])

def Account.leaf (hash : Bytes → Bytes) (a : Account) : Except Fault Bytes := do
  return hash (← a.encode)

/-- The root over accounts in canonical order. -/
def stateRoot (hash : Bytes → Bytes) (accounts : List Account) : Except Fault String := do
  return Text.hex0x (Merkle.root hash (← accounts.mapM (Account.leaf hash)))

/-- The address of the contract that `deployer` deploys with `nonce`: the last
twenty bytes of a hash of both. -/
def deriveAddress (hash : Bytes → Bytes) (deployer : Address) (nonce : Int) :
    Except Fault Address := do
  let address ← Codec.addressItem deployer
  if nonce < 0 then throw .negativeNonce
  let named ← Codec.packed (.list [address, .bytes (Text.bigEndian nonce.toNat)])
  Codec.readAddress ((hash named).drop 12)

end ContractVM
